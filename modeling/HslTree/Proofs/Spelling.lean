import HslTree.Proofs.Advance
import HslTree.Proofs.Point

/-! What the steps of a rule do to a frame: they spell a word of a language into the draft, or they
stop at the first token that cannot go on. -/

namespace HslTree

open scoped Computability

/-- The diagnostic of the first token at which the walk over a stream stops. -/
def Stuck (q : Point) (s : Stream) (d : Diagnostic) : Prop :=
  ∃ pre t post p, s.pending ++ [s.last] = pre ++ t :: post ∧ q.walk pre = some p ∧
    p.next? t.kind = none ∧ d = ⟨.unexpected p.expected t.kind t.value, t.span.start⟩

namespace Frame

/-- A frame between two steps: its draft is a beginning of a node. -/
structure Ready (file : String) (kind : NodeKind) (f : Frame) : Prop where
  closed : f.stream.Closed
  draft : f.draft = .of kind f.draft.children
  derived : ∀ c ∈ f.draft.children, Derivation file c
  fit : ExtrasFit kind f.draft.children
  start : kind ≠ .sourceFile → f.draft.children = [] → f.stream.extras = []

/-- The children `cs` were moved from the stream to the draft, and their tokens lead from one point
to another. -/
structure Grows (f : Frame) (q : Point) (cs : List Tree) (p : Point) (g : Frame) : Prop where
  children : g.draft.children = f.draft.children ++ cs
  pending : f.stream.pending = Tree.tokensOf cs ++ g.stream.pending
  last : g.stream.last = f.stream.last
  walk : q.walk (Tree.tokensOf cs) = some p
  solid : Tree.tokensOf cs = [] → cs = []

theorem Grows.refl (q : Point) (f : Frame) : f.Grows q [] q f :=
  ⟨by simp, by simp [Tree.tokensOf], rfl, rfl, fun _ => rfl⟩

theorem Grows.trans {f g h : Frame} {q p r : Point} {cs ds : List Tree} (hf : f.Grows q cs p g)
    (hg : g.Grows p ds r h) : f.Grows q (cs ++ ds) r h where
  children := by rw [hg.children, hf.children, List.append_assoc]
  pending := by rw [hf.pending, hg.pending, Tree.tokensOf_append, List.append_assoc]
  last := hg.last.trans hf.last
  walk := by rw [Tree.tokensOf_append, Point.walk_append_of hf.walk, hg.walk]
  solid := by
    rw [Tree.tokensOf_append, List.append_eq_nil_iff]
    rintro ⟨hcs, hds⟩
    rw [hf.solid hcs, hg.solid hds, List.append_nil]

def adds (f : Frame) (kind : NodeKind) (c : Tree) (rest : List Token) : Frame :=
  ⟨⟨rest, f.stream.last⟩,
    .of kind (f.draft.children ++ (f.stream.extras.map .leaf ++ [c]))⟩

section Adds

variable {f : Frame} {c : Tree} {rest : List Token}

theorem Ready.adds {file : String} {kind : NodeKind} (hf : f.Ready file kind)
    (hpending : f.stream.pending = f.stream.extras ++ (c.tokens ++ rest))
    (hc : c.isExtra = false) (hderived : Derivation file c)
    (htight : kind.isTight = true → f.stream.extras = []) :
    (f.adds kind c rest).Ready file kind where
  closed := hf.closed.of_append (by rw [hpending, ← List.append_assoc]; rfl) rfl
  draft := rfl
  derived := by
    intro d hd
    simp only [Frame.adds, Draft.of, List.mem_append, List.mem_map, List.mem_singleton] at hd
    rcases hd with hd | ⟨t, _, rfl⟩ | rfl
    · exact hf.derived d hd
    · exact .leaf t
    · exact hderived
  fit := by
    refine hf.fit.append ?_ hc ?_
    · intro hkind hnil
      rw [hf.start hkind hnil, List.map_nil]
    · intro hkind
      rw [htight hkind, List.map_nil]
  start := by simp [Frame.adds, Draft.of]

theorem grows_adds (kind : NodeKind) {q p : Point}
    (hpending : f.stream.pending = f.stream.extras ++ (c.tokens ++ rest))
    (htokens : c.tokens ≠ []) (htight : q.isTight = true → f.stream.extras = [])
    (hwalk : q.walk c.tokens = some p) :
    f.Grows q (f.stream.extras.map .leaf ++ [c]) p (f.adds kind c rest) := by
  have htokensOf : Tree.tokensOf (f.stream.extras.map .leaf ++ [c]) =
      f.stream.extras ++ c.tokens := by
    simp [Tree.tokensOf_leaves, Tree.tokensOf]
  have hextras : q.walk f.stream.extras = some q := by
    cases hq : q.isTight with
    | false => exact q.walk_extras hq f.stream.extras_isExtra
    | true => rw [htight hq, Point.walk_nil]
  refine ⟨rfl, ?_, rfl, ?_, ?_⟩
  · rw [htokensOf, hpending, List.append_assoc]
    rfl
  · rw [htokensOf, Point.walk_append_of hextras, hwalk]
  · simp [htokensOf, htokens]

end Adds

end Frame

theorem Stuck.prepend {q p : Point} {s s' : Stream} {d : Diagnostic} {ts : List Token}
    (hpending : s.pending = ts ++ s'.pending) (hlast : s'.last = s.last)
    (hwalk : q.walk ts = some p) (h : Stuck p s' d) : Stuck q s d := by
  obtain ⟨pre, t, post, r, hsplit, hpre, hnext, hd⟩ := h
  refine ⟨ts ++ pre, t, post, r, ?_, ?_, hnext, hd⟩
  · rw [hpending, ← hlast, List.append_assoc, hsplit, List.append_assoc]
  · rw [Point.walk_append_of hwalk, hpre]

theorem Frame.Grows.stuck {f g : Frame} {q p : Point} {cs : List Tree} {d : Diagnostic}
    (hf : f.Grows q cs p g) (h : Stuck p g.stream d) : Stuck q f.stream d :=
  h.prepend hf.pending hf.last hf.walk

theorem stuck_current {q : Point} (hq : q.isTight = false) (s : Stream) {expected : List Kind}
    (hnext : q.next? s.current.kind = none) (hexpected : Kind.sorted expected = q.expected) :
    Stuck q s (s.current.unexpected expected) := by
  obtain ⟨post, hpost⟩ := s.split_current
  refine ⟨s.extras, s.current, post, q, hpost, q.walk_extras hq s.extras_isExtra, hnext, ?_⟩
  rw [Token.unexpected, hexpected]

theorem stuck_next {q : Point} (s : Stream) {expected : List Kind}
    (hnext : q.next? s.next.kind = none) (hexpected : Kind.sorted expected = q.expected) :
    Stuck q s (s.next.unexpected expected) := by
  obtain ⟨pending, last⟩ := s
  cases pending with
  | nil => exact ⟨[], last, [], q, rfl, rfl, hnext, by rw [← hexpected]; rfl⟩
  | cons t rest => exact ⟨[], t, rest ++ [last], q, rfl, rfl, hnext, by rw [← hexpected]; rfl⟩

namespace Builder

/-- From a frame at a point, a step adds children whose symbols are a word of `L`, or stops at the
first token that cannot go on. -/
def Spells {α : Type} (file : String) (kind : NodeKind) (q : Point) (f : Frame) (m : Builder α)
    (L : Language Symbol) (post : α → Point → Frame → Prop) : Prop :=
  match m f with
  | .ok a g =>
    ∃ cs p, f.Grows q cs p g ∧ symbols cs ∈ L ∧ g.Ready file kind ∧ post a p g
  | .error d _ => Stuck q f.stream d

section Rules

variable {α β : Type} {file : String} {kind : NodeKind} {q p : Point} {f : Frame}
  {L M : Language Symbol} {m : Builder α} {k : α → Builder β}

theorem Spells.of_ok {a : α} {g : Frame} (h : m f = .ok a g) {post : α → Point → Frame → Prop}
    {cs : List Tree} (hgrows : f.Grows q cs p g) (hsymbols : symbols cs ∈ L)
    (hg : g.Ready file kind) (hpost : post a p g) : Spells file kind q f m L post := by
  rw [Spells, h]
  exact ⟨cs, p, hgrows, hsymbols, hg, hpost⟩

theorem Spells.of_error {d : Diagnostic} {g : Frame} (h : m f = .error d g)
    {post : α → Point → Frame → Prop} (hstuck : Stuck q f.stream d) :
    Spells file kind q f m L post := by
  rw [Spells, h]
  exact hstuck

theorem Spells.weaken {post post' : α → Point → Frame → Prop}
    (h : Spells file kind q f m L post) (hL : L ≤ M) (hpost : ∀ a p g, post a p g → post' a p g) :
    Spells file kind q f m M post' := by
  unfold Spells at h ⊢
  split
  · rename_i a g hm
    rw [hm] at h
    obtain ⟨cs, p, hgrows, hsymbols, hg, ha⟩ := h
    exact ⟨cs, p, hgrows, hL hsymbols, hg, hpost a p g ha⟩
  · rename_i d g hm
    rwa [hm] at h

theorem Spells.pure {a : α} (hf : f.Ready file kind) {post : α → Point → Frame → Prop}
    (hpost : post a q f) : Spells file kind q f (Pure.pure a) 1 post :=
  .of_ok rfl (.refl q f) rfl hf hpost

theorem Spells.prepend {n n' : Builder β} {g : Frame} {cs : List Tree}
    {post : β → Point → Frame → Prop} (hgrows : f.Grows q cs p g)
    (hsymbols : symbols cs ∈ L) (hn : n f = n' g) (h : Spells file kind p g n' M post) :
    Spells file kind q f n (L * M) post := by
  unfold Spells at h ⊢
  rw [hn]
  cases hn' : n' g with
  | error d h' =>
    rw [hn'] at h
    exact hgrows.stuck h
  | ok b h' =>
    rw [hn'] at h
    obtain ⟨ds, r, hgrows', hsymbols', hready, hb⟩ := h
    refine ⟨cs ++ ds, r, hgrows.trans hgrows', ?_, hready, hb⟩
    rw [symbols_append]
    exact Language.append_mem_mul hsymbols hsymbols'

theorem Spells.bind {post : α → Point → Frame → Prop} {post' : β → Point → Frame → Prop}
    (h : Spells file kind q f m L post)
    (hk : ∀ a p g, g.Ready file kind → post a p g → Spells file kind p g (k a) M post') :
    Spells file kind q f (m >>= k) (L * M) post' := by
  unfold Spells at h
  cases hm : m f with
  | error d g =>
    rw [hm] at h
    exact .of_error (bind_error hm) h
  | ok a g =>
    rw [hm] at h
    obtain ⟨cs, p, hgrows, hsymbols, hg, ha⟩ := h
    exact .prepend hgrows hsymbols (bind_ok hm) (hk a p g hg ha)

theorem Spells.bind_bind {γ : Type} {n : β → Builder γ} {post : β → Point → Frame → Prop}
    {post' : γ → Point → Frame → Prop} (h : Spells file kind q f (m >>= k) L post)
    (hn : ∀ b p g, g.Ready file kind → post b p g → Spells file kind p g (n b) M post') :
    Spells file kind q f (m >>= fun a => k a >>= n) (L * M) post' := by
  rw [← bind_assoc]
  exact h.bind hn

theorem Spells.return_after {b : β} {post : α → Point → Frame → Prop}
    {post' : β → Point → Frame → Prop} (h : Spells file kind q f m L post)
    (hpost : ∀ a p g, post a p g → post' b p g) :
    Spells file kind q f (m >>= fun _ => Pure.pure b) L post' := by
  have hbind := h.bind fun a p g hg ha => Spells.pure (a := b) hg (hpost a p g ha)
  rwa [mul_one] at hbind

theorem Spells.current {k : Token → Builder β} {post : β → Point → Frame → Prop}
    (h : Spells file kind q f (k f.stream.current) L post) :
    Spells file kind q f (Builder.current >>= k) L post := h

theorem Spells.next {k : Token → Builder β} {post : β → Point → Frame → Prop}
    (h : Spells file kind q f (k f.stream.next) L post) :
    Spells file kind q f (Builder.next >>= k) L post := h

end Rules

section Steps

variable {α : Type} {file : String} {kind : NodeKind} {q p : Point} {f : Frame}
  {L : Language Symbol}

theorem Spells.congr {m m' : Builder α} {post : α → Point → Frame → Prop} (hm : m f = m' f)
    (h : Spells file kind q f m' L post) : Spells file kind q f m L post := by
  rwa [Spells, hm]

theorem Spells.of_adds {m : Builder α} {a : α} {c : Tree} {rest : List Token}
    {post : α → Point → Frame → Prop} (hf : f.Ready file kind)
    (hm : m f = .ok a (f.adds kind c rest))
    (hpending : f.stream.pending = f.stream.extras ++ (c.tokens ++ rest))
    (hc : c.isExtra = false) (hderived : Derivation file c) (htokens : c.tokens ≠ [])
    (hloose : q.isTight = true ∨ kind.isTight = true → f.stream.extras = [])
    (hwalk : q.walk c.tokens = some p) (hpost : ∀ g, post a p g) :
    Spells file kind q f m {[c.symbol]} post := by
  refine .of_ok hm (f.grows_adds kind hpending htokens ?_ hwalk) ?_
    (hf.adds hpending hc hderived fun hkind => hloose (.inr hkind)) (hpost _)
  · intro hq
    exact hloose (.inl hq)
  · rw [symbols_append, symbols_leaves f.stream.extras_isExtra, symbols_cons hc]
    rfl

variable {k : Kind} {expected : List Kind}

/-- Steps that take the current token differ only in what they answer and mark. -/
theorem Spells.of_take {m : Builder α} (hf : f.Ready file kind)
    (hcurrent : f.stream.current.kind = k) (hk : k ≠ .endOfInput) (hnext : q.next? k = some p)
    (hloose : q.isTight = true ∨ kind.isTight = true → f.stream.extras = [])
    (hm : ∀ rest, f.stream.pending = f.stream.extras ++ f.stream.current :: rest →
      ∃ a, m f = .ok a (f.adds kind (.leaf f.stream.current) rest)) :
    Spells file kind q f m (aToken k) fun _ r _ => r = p := by
  subst hcurrent
  obtain ⟨rest, hpending⟩ := hf.closed.split_pending hk
  obtain ⟨a, ha⟩ := hm rest hpending
  exact .of_adds hf ha hpending hf.closed.current_isExtra (.leaf _) (by simp [Tree.tokens]) hloose
    (by rw [Tree.tokens, Point.walk_singleton, hnext]) fun _ => rfl

theorem Spells.advance (hf : f.Ready file kind) (hcurrent : f.stream.current.kind = k)
    (hk : k ≠ .endOfInput) (hnext : q.next? k = some p)
    (hloose : q.isTight = true ∨ kind.isTight = true → f.stream.extras = [])
    (hrole : roleOf kind k = none) :
    Spells file kind q f Builder.advance (aToken k) fun _ r _ => r = p := by
  refine .of_take hf hcurrent hk hnext hloose fun rest hpending => ?_
  have hmove := advance_of f.draft.children rest f.stream.last f.stream.extras_isExtra
    hf.closed.current_isExtra (hcurrent ▸ hrole)
  rw [← hpending, ← hf.draft] at hmove
  exact ⟨_, hmove⟩

theorem Spells.advance_mark {field : Field} (hf : f.Ready file kind)
    (hcurrent : f.stream.current.kind = k) (hk : k ≠ .endOfInput) (hnext : q.next? k = some p)
    (hloose : q.isTight = true ∨ kind.isTight = true → f.stream.extras = [])
    (hrole : roleOf kind k = some field) :
    Spells file kind q f (Builder.advance >>= mark field) (aToken k) fun _ r _ => r = p := by
  refine .of_take hf hcurrent hk hnext hloose fun rest hpending => ?_
  have hmove := advance_mark_of f.draft.children rest f.stream.last f.stream.extras_isExtra
    hf.closed.current_isExtra (hcurrent ▸ hrole)
  rw [← hpending, ← hf.draft] at hmove
  exact ⟨_, hmove⟩

/-- A step that refuses the current token blames it rightly if it knows all kinds allowed. -/
theorem Spells.refuse {m : Builder α} {post : α → Point → Frame → Prop}
    (hf : f.Ready file kind) (hq : q.isTight = false)
    (hexpected : Kind.sorted expected = q.expected) (hnot : f.stream.current.kind ∉ expected)
    (hm : m f = .error (f.stream.current.unexpected expected) f) :
    Spells file kind q f m L post := by
  refine .of_error hm (stuck_current hq _ ?_ hexpected)
  exact Point.next?_of_not_expected hexpected hf.closed.current_isExtra hnot

theorem Spells.expectOf_current (hf : f.Ready file kind) (hcurrent : f.stream.current.kind = k)
    (hk : k ≠ .endOfInput) (hnext : q.next? k = some p)
    (hloose : q.isTight = true ∨ kind.isTight = true → f.stream.extras = [])
    (hrole : roleOf kind k = none) :
    Spells file kind q f (Builder.expectOf k expected) (aToken k) fun _ r _ => r = p := by
  refine .congr ?_ (.advance hf hcurrent hk hnext hloose hrole)
  rw [expectOf_apply, if_pos hcurrent]

theorem Spells.expectOf (hf : f.Ready file kind) (hk : k ≠ .endOfInput) (hq : q.isTight = false)
    (hnext : q.next? k = some p) (hloose : kind.isTight = true → f.stream.extras = [])
    (hrole : roleOf kind k = none) (hexpected : Kind.sorted expected = q.expected)
    (honly : f.stream.current.kind ∈ expected → f.stream.current.kind = k) :
    Spells file kind q f (Builder.expectOf k expected) (aToken k) fun _ r _ => r = p := by
  by_cases hcurrent : f.stream.current.kind = k
  · exact .expectOf_current hf hcurrent hk hnext (by simpa [hq] using hloose) hrole
  · refine .refuse hf hq hexpected (fun h => hcurrent (honly h)) ?_
    rw [expectOf_apply, if_neg hcurrent]

theorem Spells.expectOf_mark {field : Field} (hf : f.Ready file kind) (hk : k ≠ .endOfInput)
    (hq : q.isTight = false) (hnext : q.next? k = some p)
    (hloose : kind.isTight = true → f.stream.extras = [])
    (hrole : roleOf kind k = some field) (hexpected : Kind.sorted expected = q.expected)
    (honly : f.stream.current.kind ∈ expected → f.stream.current.kind = k) :
    Spells file kind q f (Builder.expectOf k expected >>= mark field) (aToken k)
      fun _ r _ => r = p := by
  by_cases hcurrent : f.stream.current.kind = k
  · refine .congr ?_ (.advance_mark hf hcurrent hk hnext (by simpa [hq] using hloose) hrole)
    exact bind_congr _ (by rw [expectOf_apply, if_pos hcurrent])
  · refine .refuse hf hq hexpected (fun h => hcurrent (honly h)) (bind_error ?_)
    rw [expectOf_apply, if_neg hcurrent]

theorem Spells.expectNext (hf : f.Ready file kind) (hk : k ≠ .endOfInput)
    (hextra : k.isExtra = false) (hq : q.isTight = true) (hnext : q.next? k = some p)
    (hrole : roleOf kind k = none) (hexpected : Kind.sorted expected = q.expected)
    (honly : f.stream.next.kind ∈ expected → f.stream.next.kind = k) :
    Spells file kind q f (Builder.expectNext k expected) (aToken k) fun _ r _ => r = p := by
  by_cases hkind : f.stream.next.kind = k
  · obtain ⟨hextras, hcurrent⟩ := hf.closed.extras_eq_nil (by rw [Token.isExtra, hkind, hextra])
    refine .congr ?_ (.advance hf (hcurrent ▸ hkind) hk hnext (fun _ => hextras) hrole)
    rw [expectNext_apply, if_pos hkind]
  · refine .of_error (by rw [expectNext_apply, if_neg hkind]) (stuck_next _ ?_ hexpected)
    by_cases hnextExtra : f.stream.next.kind.isExtra = true
    · exact Point.next?_extra_tight hq hnextExtra
    · exact Point.next?_of_not_expected hexpected (by simpa using hnextExtra)
        fun h => hkind (honly h)

theorem Spells.expectOneOf_current {kinds : List Kind} (hf : f.Ready file kind)
    (hcurrent : f.stream.current.kind ∈ kinds)
    (hloose : q.isTight = true ∨ kind.isTight = true → f.stream.extras = [])
    (hkinds : ∀ k ∈ kinds, k ≠ .endOfInput ∧ q.next? k = some p ∧ roleOf kind k = none ∧
      [.token k] ∈ L) :
    Spells file kind q f (Builder.expectOneOf kinds) L fun _ r _ => r = p := by
  obtain ⟨hk, hnext, hrole, hword⟩ := hkinds _ hcurrent
  have hL : aToken f.stream.current.kind ≤ L := by
    rintro w rfl
    exact hword
  refine .congr ?_ ((Spells.advance hf rfl hk hnext hloose hrole).weaken hL fun _ _ _ h => h)
  rw [expectOneOf_apply, if_pos hcurrent]

theorem Spells.expectOneOf {kinds : List Kind} (hf : f.Ready file kind) (hq : q.isTight = false)
    (hloose : kind.isTight = true → f.stream.extras = [])
    (hkinds : ∀ k ∈ kinds, k ≠ .endOfInput ∧ q.next? k = some p ∧ roleOf kind k = none ∧
      [.token k] ∈ L)
    (hexpected : Kind.sorted kinds = q.expected) :
    Spells file kind q f (Builder.expectOneOf kinds) L fun _ r _ => r = p := by
  by_cases hcurrent : f.stream.current.kind ∈ kinds
  · exact .expectOneOf_current hf hcurrent (by simpa [hq] using hloose) hkinds
  · refine .refuse hf hq hexpected hcurrent ?_
    rw [expectOneOf_apply, if_neg hcurrent]

/-- What a rule answers when it is run on a stream: a derivation tree of the tokens it has read, or
the first token that cannot go on. -/
def Reads (file : String) (kind : NodeKind) (q p : Point) (s : Stream) (reader : Reader Tree) :
    Prop :=
  match reader s with
  | .ok tree s' =>
    Derivation file tree ∧ tree.symbol = .node kind ∧ tree.tokens ≠ [] ∧
      s.pending = tree.tokens ++ s'.pending ∧ s'.last = s.last ∧ q.walk tree.tokens = some p
  | .error d _ => Stuck q s d

theorem Spells.child {part : NodeKind} {reader : Reader Tree} (hf : f.Ready file kind)
    (hq : q.isTight = false) (hkind : kind.isTight = false)
    (hreads : Reads file part q p f.stream.dropExtras reader) :
    Spells file kind q f (Builder.child reader) (aNode part) fun _ r _ => r = p := by
  unfold Reads at hreads
  cases hreader : reader f.stream.dropExtras with
  | error d s =>
    rw [hreader] at hreads
    refine .of_error (by rw [child_apply, hreader]) ?_
    exact hreads.prepend f.stream.extras_append_dropExtras.symm rfl
      (q.walk_extras hq f.stream.extras_isExtra)
  | ok tree s =>
    rw [hreader] at hreads
    obtain ⟨hderived, hsymbol, htokens, hpending, hlast, hwalk⟩ := hreads
    have hextra : tree.isExtra = false := by
      cases tree with
      | leaf => cases hsymbol
      | node => rfl
    have hrole : tree.role kind = none := by
      cases tree with
      | leaf => cases hsymbol
      | node => rfl
    have hpush := Draft.push_of f.draft.children (symbols_leaves f.stream.extras_isExtra) hrole
    rw [← hf.draft] at hpush
    have hmove : Builder.child reader f =
        .ok (f.draft.children.length + f.stream.extras.length) (f.adds kind tree s.pending) := by
      have hlast' : s.last = f.stream.last := hlast
      rw [child_apply, hreader, Frame.adds, ← hpush, ← hlast']
    rw [aNode, ← hsymbol]
    refine .of_adds hf hmove ?_ hextra hderived htokens (by simp [hq, hkind]) hwalk fun _ => rfl
    rw [← hpending, f.stream.extras_append_dropExtras]

theorem Spells.iterate {σ : Type} {step : σ → Builder (Option σ)}
    (inv : σ → Point → Frame → Prop) (stop : Point → Frame → Prop) (hL : [] ∉ L)
    (hstep : ∀ x q f, f.Ready file kind → inv x q f →
      step x f = .ok none f ∧ stop q f ∨
      Spells file kind q f (step x) L fun y p g => ∃ z, y = some z ∧ inv z p g)
    {x : σ} (hf : f.Ready file kind) (hx : inv x q f) :
    Spells file kind q f (Builder.iterate step x) L∗ fun _ p g => stop p g := by
  -- By the tokens left: a step that asks for another turn has read some.
  induction hn : f.stream.pending.length using Nat.strongRecOn generalizing x q f with
  | ind n ih =>
  rcases hstep x q f hf hx with ⟨hnone, hstop⟩ | hspells
  · have hend : Builder.iterate step x f = .ok () f := by rw [Builder.iterate, hnone]
    exact .of_ok hend (.refl q f) (Language.nil_mem_kstar L) hf hstop
  · unfold Spells at hspells
    cases hm : step x f with
    | error d g =>
      rw [hm] at hspells
      exact .of_error (by rw [Builder.iterate, hm]) hspells
    | ok y g =>
      rw [hm] at hspells
      obtain ⟨cs, p, hgrows, hsymbols, hg, z, rfl, hz⟩ := hspells
      have hcs : Tree.tokensOf cs ≠ [] := by
        intro hnil
        rw [hgrows.solid hnil] at hsymbols
        exact hL hsymbols
      have hlt : g.stream.pending.length < f.stream.pending.length := by
        have hpos := List.length_pos_iff.mpr hcs
        rw [hgrows.pending, List.length_append]
        omega
      refine (Spells.prepend hgrows hsymbols ?_ (ih _ (hn ▸ hlt) hg hz rfl)).weaken
        mul_kstar_le_kstar fun _ _ _ h => h
      rw [Builder.iterate, hm]
      simp [hlt]

end Steps

theorem ready_empty {file : String} {kind : NodeKind} {s : Stream} (hs : s.Closed)
    (hextras : kind ≠ .sourceFile → s.extras = []) : Frame.Ready file kind ⟨s, .empty kind⟩ where
  closed := hs
  draft := rfl
  derived := by simp [Draft.empty]
  fit := ⟨by simp [Draft.empty], by simp [Draft.empty], by simp [Draft.empty]⟩
  start := fun hkind _ => hextras hkind

theorem reads_build {file : String} {kind : NodeKind} {q p : Point} {s : Stream}
    {steps : Builder Unit} (hkind : kind ≠ .sourceFile)
    (h : Spells file kind q ⟨s, .empty kind⟩ steps (production kind) fun _ r _ => r = p) :
    Reads file kind q p s (build kind steps) := by
  unfold Spells at h
  unfold Reads build
  cases hsteps : steps ⟨s, .empty kind⟩ with
  | error d g =>
    rw [hsteps] at h
    exact h
  | ok a g =>
    rw [hsteps] at h
    obtain ⟨cs, r, hgrows, hsymbols, hg, rfl⟩ := h
    have hchildren : g.draft.children = cs := hgrows.children
    have hne : cs ≠ [] := by
      rintro rfl
      exact nil_notMem_production hkind hsymbols
    have htree : g.draft.finish g.stream.position = nodeOf file kind cs := by
      rw [hg.draft, hchildren]
      exact Draft.finish_of file kind cs _ (.inl hne)
    simp only [htree]
    refine ⟨.node ?_ hsymbols (hchildren ▸ hg.fit), rfl, fun hnil => hne (hgrows.solid hnil),
      hgrows.pending, hgrows.last, hgrows.walk⟩
    intro c hc
    exact hg.derived c (hchildren ▸ hc)

end Builder

end HslTree
