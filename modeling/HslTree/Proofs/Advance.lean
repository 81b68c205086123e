import HslTree.Grammar.Draft
import HslTree.Proofs.Derivation

/-! Streams and drafts around one step: what is in front of the current token, and what moving it
into the draft leaves. -/

namespace HslTree

theorem Tree.tokensOf_leaves (ts : List Token) : Tree.tokensOf (ts.map .leaf) = ts := by
  induction ts with
  | nil => rfl
  | cons t ts ih => simp [Tree.tokensOf, Tree.tokens, ih]

theorem symbols_leaves {ts : List Token} (h : ∀ t ∈ ts, t.isExtra = true) :
    symbols (ts.map .leaf) = [] := by
  rw [symbols_eq_nil_iff]
  intro c hc
  obtain ⟨t, ht, rfl⟩ := List.mem_map.mp hc
  exact h t ht

theorem eq_leaves_of_symbols_eq_nil {cs : List Tree} (h : symbols cs = []) :
    cs = (Tree.tokensOf cs).map .leaf ∧ ∀ t ∈ Tree.tokensOf cs, t.isExtra = true := by
  rw [symbols_eq_nil_iff] at h
  induction cs with
  | nil => simp [Tree.tokensOf]
  | cons c cs ih =>
    have hc := h c (by simp)
    obtain ⟨hcs, hts⟩ := ih fun e he => h e (by simp [he])
    cases c with
    | node => simp [Tree.isExtra] at hc
    | leaf t =>
      simp only [Tree.tokensOf, Tree.tokens, List.singleton_append, List.map_cons, ← hcs,
        List.mem_cons, forall_eq_or_imp]
      exact ⟨trivial, hc, hts⟩

namespace Stream

/-- The form of the streams that token lists have. -/
structure Closed (s : Stream) : Prop where
  pending : ∀ t ∈ s.pending, t.kind ≠ .endOfInput
  last : s.last.kind = .endOfInput

theorem closed_ofTokens (file : String) (tokens : List Token) : (ofTokens file tokens).Closed := by
  constructor
  · intro t ht
    simpa using List.mem_takeWhile_imp ht
  · unfold ofTokens endMark
    split
    · rename_i mark hmark
      simpa using List.find?_some hmark
    · rfl
    · rfl

section Shape

variable {gap rest : List Token} {t last : Token}

theorem extras_gap (hgap : ∀ e ∈ gap, e.isExtra = true) (ht : t.isExtra = false) :
    extras ⟨gap ++ t :: rest, last⟩ = gap := by
  simp [extras, List.takeWhile_append_of_pos hgap, ht]

theorem dropExtras_gap (hgap : ∀ e ∈ gap, e.isExtra = true) (ht : t.isExtra = false) :
    dropExtras ⟨gap ++ t :: rest, last⟩ = ⟨t :: rest, last⟩ := by
  simp [dropExtras, List.dropWhile_append_of_pos hgap, ht]

theorem current_gap (hgap : ∀ e ∈ gap, e.isExtra = true) (ht : t.isExtra = false) :
    current ⟨gap ++ t :: rest, last⟩ = t := by
  have hnone : gap.find? (!·.isExtra) = none := by
    rw [List.find?_eq_none]
    intro e he
    simp [hgap e he]
  simp [current, List.find?_append, hnone, ht]

theorem current_extras (hgap : ∀ e ∈ gap, e.isExtra = true) : current ⟨gap, last⟩ = last := by
  have hnone : gap.find? (!·.isExtra) = none := by
    rw [List.find?_eq_none]
    intro e he
    simp [hgap e he]
  simp [current, hnone]

end Shape

/-- A stream is at its end, with nothing but extras in front of it, or in front of a token. -/
theorem shape (s : Stream) :
    (∀ t ∈ s.pending, t.isExtra = true) ∧ s.current = s.last ∨
      ∃ gap t rest, s.pending = gap ++ t :: rest ∧ (∀ e ∈ gap, e.isExtra = true) ∧
        t.isExtra = false ∧ s.current = t := by
  cases hfind : s.pending.find? (!·.isExtra) with
  | none =>
    left
    refine ⟨fun t ht => ?_, by simp [current, hfind]⟩
    simpa using List.find?_eq_none.mp hfind t ht
  | some t =>
    right
    obtain ⟨ht, gap, rest, hpending, hgap⟩ := List.find?_eq_some_iff_append.mp hfind
    exact ⟨gap, t, rest, hpending, fun e he => by simpa using hgap e he, by simpa using ht,
      by simp [current, hfind]⟩

theorem extras_isExtra (s : Stream) : ∀ t ∈ s.extras, t.isExtra = true :=
  fun _ ht => List.mem_takeWhile_imp ht

theorem extras_append_dropExtras (s : Stream) : s.extras ++ s.dropExtras.pending = s.pending :=
  List.takeWhile_append_dropWhile

theorem extras_dropExtras (s : Stream) : s.dropExtras.extras = [] :=
  List.takeWhile_eq_nil_iff.mpr fun hl => List.dropWhile_get_zero_not _ _ hl

theorem current_dropExtras (s : Stream) : s.dropExtras.current = s.current := by
  rcases s.shape with ⟨hall, hcurrent⟩ | ⟨gap, t, rest, hpending, hgap, ht, hcurrent⟩
  · have hdrop : s.pending.dropWhile (·.isExtra) = [] := List.dropWhile_eq_nil_iff.mpr hall
    rw [hcurrent]
    simp [dropExtras, current, hdrop]
  · obtain ⟨pending, last⟩ := s
    subst hpending
    rw [hcurrent, dropExtras_gap hgap ht]
    simp [current, ht]

theorem Closed.dropExtras {s : Stream} (hs : s.Closed) : s.dropExtras.Closed :=
  ⟨fun t ht => hs.pending t ((List.dropWhile_suffix _).subset ht), hs.last⟩

theorem Closed.of_append {s s' : Stream} (hs : s.Closed) {ts : List Token}
    (hpending : s.pending = ts ++ s'.pending) (hlast : s'.last = s.last) : s'.Closed :=
  ⟨fun t ht => hs.pending t (by simp [hpending, ht]), by rw [hlast, hs.last]⟩

theorem Closed.current_isExtra {s : Stream} (hs : s.Closed) : s.current.isExtra = false := by
  rcases s.shape with ⟨_, hcurrent⟩ | ⟨gap, t, rest, _, _, ht, hcurrent⟩
  · rw [hcurrent, Token.isExtra, hs.last]
    rfl
  · rw [hcurrent, ht]

theorem split_current (s : Stream) :
    ∃ post, s.pending ++ [s.last] = s.extras ++ s.current :: post := by
  rcases s.shape with ⟨hall, hcurrent⟩ | ⟨gap, t, rest, hpending, hgap, ht, hcurrent⟩
  · have hextras : s.extras = s.pending := List.takeWhile_eq_self_iff.mpr hall
    exact ⟨[], by rw [hextras, hcurrent]⟩
  · obtain ⟨pending, last⟩ := s
    subst hpending
    exact ⟨rest ++ [last], by simp [extras_gap hgap ht, hcurrent]⟩

theorem Closed.split_pending {s : Stream} (hs : s.Closed)
    (hk : s.current.kind ≠ .endOfInput) :
    ∃ rest, s.pending = s.extras ++ s.current :: rest := by
  rcases s.shape with ⟨_, hcurrent⟩ | ⟨gap, t, rest, hpending, hgap, ht, hcurrent⟩
  · rw [hcurrent, hs.last] at hk
    exact absurd rfl hk
  · obtain ⟨pending, last⟩ := s
    subst hpending
    exact ⟨rest, by rw [extras_gap hgap ht, hcurrent]⟩

theorem Closed.extras_eq_pending {s : Stream} (hs : s.Closed)
    (hk : s.current.kind = .endOfInput) : s.extras = s.pending := by
  rcases s.shape with ⟨hall, _⟩ | ⟨gap, t, rest, hpending, _, _, hcurrent⟩
  · exact List.takeWhile_eq_self_iff.mpr hall
  · refine absurd (hcurrent ▸ hk) (hs.pending t ?_)
    simp [hpending]

theorem Closed.extras_eq_nil {s : Stream} (hs : s.Closed) (hnext : s.next.isExtra = false) :
    s.extras = [] ∧ s.current = s.next := by
  obtain ⟨pending, last⟩ := s
  cases pending with
  | nil => exact ⟨rfl, rfl⟩
  | cons t rest =>
    have ht : t.isExtra = false := by simpa [next] using hnext
    exact ⟨by simp [extras, ht], by simp [current, next, ht]⟩

end Stream

def Draft.of (kind : NodeKind) (children : List Tree) : Draft :=
  ⟨kind, children, fieldsFrom kind 0 children⟩

theorem Draft.finish_of (file : String) (kind : NodeKind) (children : List Tree)
    (position : Position) (h : children ≠ [] ∨ position = .at file 0) :
    (Draft.of kind children).finish position = nodeOf file kind children := by
  cases children with
  | nil =>
    have hposition : position = .at file 0 := by simpa using h
    rw [hposition]
    rfl
  | cons c cs =>
    have hlast := List.getLast?_eq_some_getLast (List.cons_ne_nil c cs)
    simp [Draft.of, Draft.finish, nodeOf, spanOf, hlast]

section Of

variable {kind : NodeKind} (children : List Tree) {gap : List Tree} {c : Tree}

theorem Draft.push_gap_of (hgap : symbols gap = []) :
    (Draft.of kind children).push gap = .of kind (children ++ gap) := by
  simp [Draft.push, Draft.of, fieldsFrom_append, fieldsFrom_extras kind _ hgap]

theorem Draft.push_of (hgap : symbols gap = []) (hc : c.role kind = none) :
    (Draft.of kind children).push (gap ++ [c]) = .of kind (children ++ (gap ++ [c])) := by
  simp [Draft.push, Draft.of, fieldsFrom_append, fieldsFrom_extras kind _ hgap, fieldsFrom, hc]

theorem Draft.mark_push_of {field : Field} (hgap : symbols gap = [])
    (hc : c.role kind = some field) :
    ((Draft.of kind children).push (gap ++ [c])).mark field (children.length + gap.length) =
      .of kind (children ++ (gap ++ [c])) := by
  simp [Draft.push, Draft.mark, Draft.of, fieldsFrom_append, fieldsFrom_extras kind _ hgap,
    fieldsFrom, hc]

end Of

namespace Builder

theorem advance_apply (f : Frame) :
    advance f = .ok (f.flushExtras.take.draft.children.length - 1) f.flushExtras.take := rfl

theorem expectOf_apply (k : Kind) (expected : List Kind) (f : Frame) :
    expectOf k expected f =
      if f.stream.current.kind = k then advance f
      else .error (f.stream.current.unexpected expected) f := by
  change (if f.stream.current.kind = k then advance else throw _) f = _
  split <;> rfl

theorem expectOneOf_apply (kinds : List Kind) (f : Frame) :
    expectOneOf kinds f =
      if f.stream.current.kind ∈ kinds then advance f
      else .error (f.stream.current.unexpected kinds) f := by
  change (if f.stream.current.kind ∈ kinds then advance else throw _) f = _
  split <;> rfl

theorem expectNext_apply (k : Kind) (expected : List Kind) (f : Frame) :
    expectNext k expected f =
      if f.stream.next.kind = k then advance f
      else .error (f.stream.next.unexpected expected) f := by
  change (if f.stream.next.kind = k then advance else throw _) f = _
  split <;> rfl

theorem bind_ok {α β : Type} {m : Builder α} {k : α → Builder β} {f g : Frame} {a : α}
    (h : m f = .ok a g) : (m >>= k) f = k a g := by
  simp [bind, EStateM.bind, h]

theorem bind_error {α β : Type} {m : Builder α} {k : α → Builder β} {f g : Frame}
    {d : Diagnostic} (h : m f = .error d g) : (m >>= k) f = .error d g := by
  simp [bind, EStateM.bind, h]

theorem bind_congr {α β : Type} {m m' : Builder α} (k : α → Builder β) {f : Frame}
    (h : m f = m' f) : (m >>= k) f = (m' >>= k) f := by
  simp [bind, EStateM.bind, h]

theorem advance_gap {gap rest : List Token} {t last : Token} {d : Draft}
    (hgap : ∀ e ∈ gap, e.isExtra = true) (ht : t.isExtra = false) :
    advance ⟨⟨gap ++ t :: rest, last⟩, d⟩ =
      .ok (d.children.length + gap.length)
        ⟨⟨rest, last⟩, d.push (gap.map .leaf ++ [.leaf t])⟩ := by
  simp [advance_apply, Frame.flushExtras, Frame.take, Stream.dropExtras_gap hgap ht,
    Stream.extras_gap hgap ht, Draft.push]

section Of

variable {kind : NodeKind} (children : List Tree) {gap : List Token} (rest : List Token)
  {t : Token} (last : Token)

theorem advance_of (hgap : ∀ e ∈ gap, e.isExtra = true) (ht : t.isExtra = false)
    (hrole : roleOf kind t.kind = none) :
    advance ⟨⟨gap ++ t :: rest, last⟩, .of kind children⟩ =
      .ok (children.length + gap.length)
        ⟨⟨rest, last⟩, .of kind (children ++ (gap.map .leaf ++ [.leaf t]))⟩ := by
  have hpush := Draft.push_of children (symbols_leaves hgap) (c := .leaf t) hrole
  rw [advance_gap hgap ht, hpush]
  rfl

theorem advance_mark_of {field : Field} (hgap : ∀ e ∈ gap, e.isExtra = true)
    (ht : t.isExtra = false) (hrole : roleOf kind t.kind = some field) :
    (advance >>= mark field) ⟨⟨gap ++ t :: rest, last⟩, .of kind children⟩ =
      .ok () ⟨⟨rest, last⟩, .of kind (children ++ (gap.map .leaf ++ [.leaf t]))⟩ := by
  have hmark := Draft.mark_push_of children (symbols_leaves hgap) (c := .leaf t) hrole
  rw [List.length_map] at hmark
  simp only [bind, EStateM.bind, advance_gap hgap ht, ← hmark]
  rfl

end Of

theorem child_apply (reader : Reader Tree) (f : Frame) :
    child reader f =
      match reader f.stream.dropExtras with
      | .ok tree s =>
        .ok (f.draft.children.length + f.stream.extras.length)
          ⟨s, f.draft.push (f.stream.extras.map .leaf ++ [tree])⟩
      | .error d s => .error d ⟨s, f.draft.push (f.stream.extras.map .leaf)⟩ := by
  cases h : reader f.stream.dropExtras <;>
    simp [child, flushExtras, onStream, lastIndex, Frame.flushExtras, modify, modifyGet,
      MonadStateOf.modifyGet, EStateM.modifyGet, bind, EStateM.bind, pure, EStateM.pure, get,
      getThe, MonadStateOf.get, EStateM.get, h, Draft.push]

end Builder

end HslTree
