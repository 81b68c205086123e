import HslTree.Proofs.RuleSpelling

/-! Reading trees back. Steps that are run on the leaves of some children lay out just these
children, whatever stands behind them. -/

namespace HslTree

open Builder
open scoped Computability

def Stream.before (s : Stream) (ts : List Token) : Stream := ⟨ts ++ s.pending, s.last⟩

theorem Stream.before_append (s : Stream) (ts us : List Token) :
    s.before (ts ++ us) = (s.before us).before ts := by
  simp [before]

theorem Stream.before_single (s : Stream) (gap : List Token) (c : Tree) :
    s.before (Tree.tokensOf (gap.map .leaf ++ [c])) =
      ⟨gap ++ (c.tokens ++ s.pending), s.last⟩ := by
  simp [before, Tree.tokensOf_leaves, Tree.tokensOf]

theorem cons_mem_aToken_mul {a : Symbol} {w : List Symbol} {L : Language Symbol} {k : Kind} :
    a :: w ∈ aToken k * L ↔ a = .token k ∧ w ∈ L := by
  simp [Language.mem_mul, eq_comm, and_comm]

theorem exists_rule {kind : NodeKind} (h : kind ≠ .sourceFile) :
    ∃ rule : Rule, rule.nodeKind = kind := by
  cases kind with
  | sourceFile => exact absurd rfl h
  | externBlock => exact ⟨.externBlock, rfl⟩
  | function => exact ⟨.function, rfl⟩
  | variadic => exact ⟨.variadic, rfl⟩
  | statement => exact ⟨.statement, rfl⟩
  | call => exact ⟨.call, rfl⟩
  | declaration => exact ⟨.declaration, rfl⟩
  | expression => exact ⟨.expression, rfl⟩
  | literal => exact ⟨.literal, rfl⟩
  | integer => exact ⟨.integer, rfl⟩
  | string => exact ⟨.string, rfl⟩
  | char => exact ⟨.char, rfl⟩
  | bool => exact ⟨.bool, rfl⟩

theorem Rule.nodeKind_ne_sourceFile (rule : Rule) : rule.nodeKind ≠ .sourceFile := by
  cases rule <;> simp

/-- The first symbol of a production opens its rule, or is a node that starts no other way. -/
theorem Rule.first_symbol {rule : Rule} {a : Symbol} {w : List Symbol}
    (h : a :: w ∈ production rule.nodeKind) :
    (∃ k, a = .token k ∧ rule.opens k = true) ∨
      ∃ part : Rule, a = .node part.nodeKind ∧ ∀ k, part.opens k = true → rule.opens k = true := by
  cases rule <;>
    simp only [nodeKind, production, mul_assoc, add_mul, one_mul, Language.mem_add,
      cons_mem_aToken_mul, mem_aToken, mem_aNode, List.cons.injEq] at h
  case externBlock | function | variadic | call | string | char => exact .inl ⟨_, h.1, rfl⟩
  case integer | bool => rcases h with h | h <;> exact .inl ⟨_, h.1, rfl⟩
  case declaration => rcases h with (h | h) | h <;> exact .inl ⟨_, h.1, rfl⟩
  case expression =>
    rcases h with h | h
    · exact .inl ⟨_, h.1, rfl⟩
    · exact .inr ⟨.literal, h.1, fun k hk => by simp_all [opens]⟩
  case statement =>
    rcases h with h | h
    · exact .inr ⟨.call, h.1, fun k hk => by cases k <;> simp_all [opens, Grammar.standard]⟩
    · refine .inr ⟨.declaration, h.1, fun k hk => ?_⟩
      cases k <;> simp_all [opens, Grammar.standard, declarationIntros]
  case literal =>
    rcases h with ((h | h) | h) | h
    · exact .inr ⟨.integer, h.1, fun k hk => by cases k <;> simp_all [opens, Grammar.standard]⟩
    · exact .inr ⟨.string, h.1, fun k hk => by cases k <;> simp_all [opens, Grammar.standard]⟩
    · exact .inr ⟨.char, h.1, fun k hk => by cases k <;> simp_all [opens, Grammar.standard]⟩
    · exact .inr ⟨.bool, h.1, fun k hk => by cases k <;> simp_all [opens, Grammar.standard]⟩

theorem Derivation.first_token {file : String} {tree : Tree} (h : Derivation file tree)
    {rule : Rule} (hrule : tree.symbol = .node rule.nodeKind) :
    ∃ t ts, tree.tokens = t :: ts ∧ t.isExtra = false ∧ rule.opens t.kind = true := by
  induction h generalizing rule with
  | leaf token => cases hrule
  | @node kind children hchildren hsymbols hextras ih =>
    obtain rfl : kind = rule.nodeKind := by simpa [nodeOf, Tree.symbol] using hrule
    cases children with
    | nil => exact absurd hsymbols (nil_notMem_production rule.nodeKind_ne_sourceFile)
    | cons c cs =>
      have hc := hextras.first rule.nodeKind_ne_sourceFile c rfl
      rw [symbols_cons hc] at hsymbols
      rcases Rule.first_symbol hsymbols with ⟨k, hk, hopen⟩ | ⟨part, hpart, hopen⟩
      · cases c with
        | node => cases hk
        | leaf t =>
          obtain rfl : t.kind = k := by simpa [Tree.symbol] using hk
          exact ⟨t, Tree.tokensOf cs, rfl, hc, hopen⟩
      · obtain ⟨t, ts, htokens, ht, hstart⟩ := ih c (by simp) hpart
        refine ⟨t, ts ++ Tree.tokensOf cs, ?_, ht, hopen _ hstart⟩
        simp [nodeOf, Tree.tokens, Tree.tokensOf, htokens]

/-- Children as steps lay them out, with no extras behind the last. -/
structure Laid (file : String) (kind : NodeKind) (children : List Tree) : Prop where
  derived : ∀ c ∈ children, Derivation file c
  trimmed : ∀ c ∈ children.getLast?, c.isExtra = false
  tight : kind.isTight = true → ∀ c ∈ children, c.isExtra = false

namespace Laid

variable {file : String} {kind : NodeKind} {cs ds : List Tree}

theorem right (h : Laid file kind (cs ++ ds)) : Laid file kind ds where
  derived := fun c hc => h.derived c (by simp [hc])
  trimmed := by
    intro c hc
    refine h.trimmed c ?_
    rw [List.getLast?_append, Option.mem_def.mp hc]
    rfl
  tight := fun hkind c hc => h.tight hkind c (by simp [hc])

theorem left (h : Laid file kind (cs ++ ds)) (hcs : ∀ c ∈ cs.getLast?, c.isExtra = false) :
    Laid file kind cs where
  derived := fun c hc => h.derived c (by simp [hc])
  trimmed := hcs
  tight := fun hkind c hc => h.tight hkind c (by simp [hc])

theorem tail {c : Tree} (h : Laid file kind (cs ++ c :: ds)) : Laid file kind ds := by
  rw [← List.singleton_append, ← List.append_assoc] at h
  exact h.right

theorem eq_nil (h : Laid file kind cs) (hcs : symbols cs = []) : cs = [] := by
  rw [symbols_eq_nil_iff] at hcs
  cases hlast : cs.getLast? with
  | none => exact List.getLast?_eq_none_iff.mp hlast
  | some c =>
    have hextra := hcs c (List.mem_of_getLast? hlast)
    rw [h.trimmed c hlast] at hextra
    cases hextra

/-- Children can be cut wherever their symbols can; extras go with what is behind them. -/
theorem split {u v : List Symbol} (h : Laid file kind cs) (hcs : symbols cs = u ++ v) :
    ∃ us vs, cs = us ++ vs ∧ Laid file kind us ∧ Laid file kind vs ∧ symbols us = u ∧
      symbols vs = v := by
  induction u generalizing cs with
  | nil => exact ⟨[], cs, rfl, ⟨by simp, by simp, by simp⟩, h, rfl, hcs⟩
  | cons a u ih =>
    obtain ⟨gap, c, tail, rfl, hgap, hc, ha, htail⟩ := symbols_eq_cons hcs
    obtain ⟨us, vs, rfl, hus, hvs, hu, hv⟩ := ih h.tail htail
    have hassoc : gap ++ c :: (us ++ vs) = (gap ++ c :: us) ++ vs := by simp
    refine ⟨gap ++ c :: us, vs, hassoc, ?_, hvs, ?_, hv⟩
    · rw [hassoc] at h
      refine h.left fun d hd => ?_
      cases hlast : us.getLast? with
      | none =>
        obtain rfl := List.getLast?_eq_none_iff.mp hlast
        obtain rfl : c = d := by simpa using hd
        exact hc
      | some e =>
        obtain rfl : e = d := by simpa [List.getLast?_cons, hlast] using hd
        exact hus.trimmed e hlast
    · rw [symbols_append, hgap, symbols_cons hc, ha, hu]
      rfl

theorem single {a : Symbol} (h : Laid file kind cs) (hcs : symbols cs = [a]) :
    ∃ (gap : List Token) (c : Tree), cs = gap.map .leaf ++ [c] ∧
      (∀ e ∈ gap, e.isExtra = true) ∧ c.isExtra = false ∧ c.symbol = a ∧ Derivation file c ∧
      (kind.isTight = true → gap = []) := by
  obtain ⟨gap, c, tail, rfl, hgap, hc, ha, htail⟩ := symbols_eq_cons hcs
  obtain rfl := h.tail.eq_nil htail
  obtain ⟨hleaves, hextra⟩ := eq_leaves_of_symbols_eq_nil hgap
  refine ⟨Tree.tokensOf gap, c, by rw [← hleaves], hextra, hc, ha, h.derived c (by simp), ?_⟩
  intro hkind
  cases gap with
  | nil => rfl
  | cons e es =>
    have hno := h.tight hkind e (by simp)
    have hyes := symbols_eq_nil_iff.mp hgap e (by simp)
    rw [hno] at hyes
    cases hyes

theorem tokensOf_ne_nil {a : Symbol} {w : List Symbol} (h : Laid file kind cs)
    (hcs : symbols cs = a :: w) (ha : a ≠ .node .sourceFile) : Tree.tokensOf cs ≠ [] := by
  obtain ⟨gap, c, tail, rfl, _, _, rfl, _⟩ := symbols_eq_cons hcs
  have hderived : Derivation file c := h.derived c (by simp)
  have hc : c.tokens ≠ [] := by
    cases c with
    | leaf t => simp [Tree.tokens]
    | node part children fields span =>
      obtain ⟨rule, rfl⟩ := exists_rule fun hpart => ha (congrArg Symbol.node hpart)
      obtain ⟨t, ts, htokens, _⟩ := hderived.first_token rfl
      rw [htokens]
      exact List.cons_ne_nil t ts
  simp [Tree.tokensOf, hc]

end Laid

/-- What holds of every stream that begins with a word of a language and goes on with a stream of
some sort. -/
def Starts (file : String) (kind : NodeKind) (L : Language Symbol) (stop P : Stream → Prop) :
    Prop :=
  ∀ cs s, Laid file kind cs → symbols cs ∈ L → stop s → P (s.before (Tree.tokensOf cs))

namespace Starts

variable {file : String} {kind : NodeKind} {L L' : Language Symbol} {stop P : Stream → Prop}

theorem any : Starts file kind L stop fun _ => True := fun _ _ _ _ _ => trivial

theorem one (h : ∀ s, stop s → P s) : Starts file kind 1 stop P := by
  intro cs s hcs hsymbols hstop
  obtain rfl := hcs.eq_nil hsymbols
  exact h s hstop

theorem add (h : Starts file kind L stop P) (h' : Starts file kind L' stop P) :
    Starts file kind (L + L') stop P := by
  intro cs s hcs hsymbols hstop
  rcases (Language.mem_add ..).mp hsymbols with hL | hL
  · exact h cs s hcs hL hstop
  · exact h' cs s hcs hL hstop

theorem mul {mid : Stream → Prop} (h : Starts file kind L mid P)
    (h' : Starts file kind L' stop mid) : Starts file kind (L * L') stop P := by
  intro cs s hcs hsymbols hstop
  obtain ⟨u, hu, v, hv, huv⟩ := Language.mem_mul.mp hsymbols
  obtain ⟨us, vs, rfl, hus, hvs, rfl, rfl⟩ := hcs.split huv.symm
  rw [Tree.tokensOf_append, Stream.before_append]
  exact h us _ hus hu (h' vs s hvs hv hstop)

theorem kstar (h : Starts file kind L (fun _ => True) P) (hstop : ∀ s, stop s → P s) :
    Starts file kind L∗ stop P := by
  rw [← Language.one_add_self_mul_kstar_eq_kstar]
  exact (one hstop).add (h.mul .any)

theorem token {k : Kind} (hP : ∀ s : Stream, s.current.kind = k → P s) :
    Starts file kind (aToken k) stop P := by
  intro cs s hcs hsymbols _
  obtain ⟨gap, c, rfl, hgap, hc, hsymbol, _⟩ := hcs.single hsymbols
  cases c with
  | node => cases hsymbol
  | leaf t =>
    obtain rfl : t.kind = k := by simpa [Tree.symbol] using hsymbol
    refine hP _ ?_
    rw [Stream.before_single, Tree.tokens, List.singleton_append, Stream.current_gap hgap hc]

theorem token_next {k : Kind} (hkind : kind.isTight = true)
    (hP : ∀ s : Stream, s.next.kind = k → P s) : Starts file kind (aToken k) stop P := by
  intro cs s hcs hsymbols _
  obtain ⟨gap, c, rfl, _, hc, hsymbol, _, htight⟩ := hcs.single hsymbols
  obtain rfl := htight hkind
  cases c with
  | node => cases hsymbol
  | leaf t =>
    obtain rfl : t.kind = k := by simpa [Tree.symbol] using hsymbol
    exact hP _ rfl

theorem node (rule : Rule) (hP : ∀ s : Stream, rule.opens s.current.kind = true → P s) :
    Starts file kind (aNode rule.nodeKind) stop P := by
  intro cs s hcs hsymbols _
  obtain ⟨gap, c, rfl, hgap, _, hsymbol, hderived, _⟩ := hcs.single hsymbols
  obtain ⟨t, ts, htokens, ht, hopen⟩ := hderived.first_token hsymbol
  refine hP _ ?_
  rw [Stream.before_single, htokens, List.cons_append, Stream.current_gap hgap ht]
  exact hopen

end Starts

namespace Builder

/-- Steps that, run on the leaves of children with symbols in a language, add these children. What
stands behind them has to be of some sort, since a loop ends at the token after it. -/
def Lays {α : Type} (file : String) (kind : NodeKind) (m : Builder α) (L : Language Symbol)
    (stop : Stream → Prop) (post : α → Prop) : Prop :=
  ∀ done cs s, Laid file kind cs → symbols cs ∈ L → stop s →
    ∃ a, post a ∧ m ⟨s.before (Tree.tokensOf cs), .of kind done⟩ = .ok a ⟨s, .of kind (done ++ cs)⟩

section Lays

variable {α β : Type} {file : String} {kind : NodeKind} {m : Builder α} {k : α → Builder β}
  {L L' : Language Symbol} {stop mid : Stream → Prop} {post : α → Prop} {post' : β → Prop}

theorem Lays.pure {a : α} (ha : post a) : Lays file kind (Pure.pure a) 1 stop post := by
  intro done cs s hcs hsymbols _
  obtain rfl := hcs.eq_nil hsymbols
  rw [List.append_nil]
  exact ⟨a, ha, rfl⟩

theorem Lays.bind (h : Lays file kind m L mid post)
    (hk : ∀ a, post a → Lays file kind (k a) L' stop post')
    (hmid : Starts file kind L' stop mid) : Lays file kind (m >>= k) (L * L') stop post' := by
  intro done cs s hcs hsymbols hstop
  obtain ⟨u, hu, v, hv, huv⟩ := Language.mem_mul.mp hsymbols
  obtain ⟨us, vs, rfl, hus, hvs, rfl, rfl⟩ := hcs.split huv.symm
  obtain ⟨a, ha, hm⟩ := h done us _ hus hu (hmid vs s hvs hv hstop)
  obtain ⟨b, hb, hrest⟩ := hk a ha (done ++ us) vs s hvs hv hstop
  refine ⟨b, hb, ?_⟩
  rw [Tree.tokensOf_append, Stream.before_append, bind_ok hm, hrest, List.append_assoc]

theorem Lays.bind_bind {γ : Type} {n : β → Builder γ} {post'' : γ → Prop}
    (h : Lays file kind (m >>= k) L mid post')
    (hn : ∀ b, post' b → Lays file kind (n b) L' stop post'')
    (hmid : Starts file kind L' stop mid) :
    Lays file kind (m >>= fun a => k a >>= n) (L * L') stop post'' := by
  rw [← bind_assoc]
  exact h.bind hn hmid

theorem Lays.return_after {b : β} (h : Lays file kind m L stop post) (hb : post' b) :
    Lays file kind (m >>= fun _ => Pure.pure b) L stop post' := by
  have hbind : Lays file kind (m >>= fun _ => Pure.pure b) (L * 1) stop post' :=
    h.bind (fun _ _ => .pure hb) (.one fun _ hs => hs)
  rwa [mul_one] at hbind

theorem Lays.add (h : Lays file kind m L stop post) (h' : Lays file kind m L' stop post) :
    Lays file kind m (L + L') stop post := by
  intro done cs s hcs hsymbols hstop
  rcases (Language.mem_add ..).mp hsymbols with hL | hL
  · exact h done cs s hcs hL hstop
  · exact h' done cs s hcs hL hstop

theorem Lays.current {k : Token → Builder α} {P : Kind → Prop}
    (hP : Starts file kind L stop fun s => P s.current.kind)
    (h : ∀ t : Token, P t.kind → Lays file kind (k t) L stop post) :
    Lays file kind (Builder.current >>= k) L stop post := by
  intro done cs s hcs hsymbols hstop
  exact h _ (hP cs s hcs hsymbols hstop) done cs s hcs hsymbols hstop

theorem Lays.next {k : Token → Builder α} {P : Kind → Prop}
    (hP : Starts file kind L stop fun s => P s.next.kind)
    (h : ∀ t : Token, P t.kind → Lays file kind (k t) L stop post) :
    Lays file kind (Builder.next >>= k) L stop post := by
  intro done cs s hcs hsymbols hstop
  exact h _ (hP cs s hcs hsymbols hstop) done cs s hcs hsymbols hstop

theorem Lays.of_token {k : Kind} (h : ∀ (done : List Tree) (gap : List Token) (t : Token)
    (s : Stream), t.kind = k → (∀ e ∈ gap, e.isExtra = true) → t.isExtra = false →
    ∃ a, post a ∧ m ⟨⟨gap ++ t :: s.pending, s.last⟩, .of kind done⟩ =
      .ok a ⟨s, .of kind (done ++ (gap.map .leaf ++ [.leaf t]))⟩) :
    Lays file kind m (aToken k) stop post := by
  intro done cs s hcs hsymbols _
  obtain ⟨gap, c, rfl, hgap, hc, hsymbol, _⟩ := hcs.single hsymbols
  cases c with
  | node => cases hsymbol
  | leaf t =>
    have ht : t.kind = k := by simpa [Tree.symbol] using hsymbol
    obtain ⟨a, ha, hm⟩ := h done gap t s ht hgap hc
    refine ⟨a, ha, ?_⟩
    rw [Stream.before_single, Tree.tokens, List.singleton_append, hm]

theorem Lays.advance {k : Kind} (hrole : roleOf kind k = none) :
    Lays file kind Builder.advance (aToken k) stop fun _ => True := by
  refine .of_token fun done gap t s ht hgap hextra => ?_
  exact ⟨_, trivial, advance_of done s.pending s.last hgap hextra (ht ▸ hrole)⟩

theorem Lays.advance_mark {k : Kind} {field : Field} (hrole : roleOf kind k = some field) :
    Lays file kind (Builder.advance >>= mark field) (aToken k) stop fun _ => True := by
  refine .of_token fun done gap t s ht hgap hextra => ?_
  exact ⟨_, trivial, advance_mark_of done s.pending s.last hgap hextra (ht ▸ hrole)⟩

theorem Lays.expectOf {k : Kind} {expected : List Kind} (hrole : roleOf kind k = none) :
    Lays file kind (Builder.expectOf k expected) (aToken k) stop fun _ => True := by
  refine .current (P := (· = k)) (.token fun _ h => h) fun t ht => ?_
  rw [if_pos ht]
  exact .advance hrole

theorem Lays.expectOf_mark {k : Kind} {expected : List Kind} {field : Field}
    (hrole : roleOf kind k = some field) :
    Lays file kind (Builder.expectOf k expected >>= mark field) (aToken k) stop
      fun _ => True := by
  unfold Builder.expectOf
  rw [bind_assoc]
  refine .current (P := (· = k)) (.token fun _ h => h) fun t ht => ?_
  rw [if_pos ht]
  exact .advance_mark hrole

theorem Lays.expectOneOf {k : Kind} {kinds : List Kind} (hk : k ∈ kinds)
    (hrole : roleOf kind k = none) :
    Lays file kind (Builder.expectOneOf kinds) (aToken k) stop fun _ => True := by
  refine .current (P := (· = k)) (.token fun _ h => h) fun t ht => ?_
  rw [if_pos (ht ▸ hk)]
  exact .advance hrole

theorem Lays.expectNext {k : Kind} {expected : List Kind} (hkind : kind.isTight = true)
    (hrole : roleOf kind k = none) :
    Lays file kind (Builder.expectNext k expected) (aToken k) stop fun _ => True := by
  refine .next (P := (· = k)) (.token_next hkind fun _ h => h) fun t ht => ?_
  rw [if_pos ht]
  exact .advance hrole

theorem Lays.stop_at {σ : Type} {k : Kind} {n : Token → Builder (Option σ)} :
    Lays file kind (Builder.current >>= fun t => if t.kind = k then Pure.pure none else n t) 1
      (fun s => s.current.kind = k) (· = none) := by
  refine .current (P := (· = k)) (.one fun _ h => h) fun t ht => ?_
  rw [if_pos ht]
  exact .pure rfl

/-- Every step of a loop adds a word, and the loop ends where no word starts. -/
theorem Lays.iterate {σ : Type} {step : σ → Builder (Option σ)} {inv : σ → Prop}
    (hL : ∀ w ∈ L, ∃ a v, w = a :: v ∧ a ≠ .node .sourceFile)
    (hstep : ∀ x, inv x → Lays file kind (step x) L mid fun y => ∃ z, y = some z ∧ inv z)
    (hend : ∀ x, inv x → Lays file kind (step x) 1 stop (· = none))
    (hmid : Starts file kind L∗ stop mid) {x : σ} (hx : inv x) :
    Lays file kind (Builder.iterate step x) L∗ stop fun _ => True := by
  intro done cs s hcs hsymbols hstop
  -- By the number of children left: a word is cut off in front, and it is not empty.
  induction hn : cs.length using Nat.strongRecOn generalizing x done cs with
  | ind n ih =>
  have hcases := hsymbols
  rw [← Language.one_add_self_mul_kstar_eq_kstar] at hcases
  rcases (Language.mem_add ..).mp hcases with hnil | hmore
  · obtain ⟨a, rfl, hm⟩ := hend x hx done cs s hcs hnil hstop
    exact ⟨(), trivial, by rw [Builder.iterate, hm]⟩
  · obtain ⟨u, hu, v, hv, huv⟩ := Language.mem_mul.mp hmore
    obtain ⟨us, vs, rfl, hus, hvs, rfl, rfl⟩ := hcs.split huv.symm
    obtain ⟨a, w, hw, ha⟩ := hL _ hu
    have htokens := List.length_pos_iff.mpr (hus.tokensOf_ne_nil hw ha)
    have hlength : 0 < us.length := by
      rw [List.length_pos_iff]
      rintro rfl
      cases hw
    obtain ⟨_, ⟨z, rfl, hz⟩, hm⟩ := hstep x hx done us _ hus hu (hmid vs s hvs hv hstop)
    have hshort : vs.length < n := by
      rw [← hn, List.length_append]
      omega
    obtain ⟨b, _, hrest⟩ := ih _ hshort hz (done ++ us) vs hvs hv rfl
    refine ⟨b, trivial, ?_⟩
    have hlt : (s.before (Tree.tokensOf vs)).pending.length <
        ((s.before (Tree.tokensOf vs)).before (Tree.tokensOf us)).pending.length := by
      simp only [Stream.before, List.length_append]
      omega
    rw [Tree.tokensOf_append, Stream.before_append, Builder.iterate, hm]
    simp only [hlt, if_true]
    rw [hrest, List.append_assoc]

end Lays

end Builder

end HslTree
