import HslTree.Proofs.Conservation
import HslTree.Proofs.SyntaxFault

/-! Reading tokens by an index. The list is kept whole, loops move the index on, and a look-up
behind the last token has no result. A frame whose stream is what is left from the index on goes
through the same states, so every look-up has a result and no index passes the first end mark. -/

namespace HslTree

/-- What is left of a token list from an index on, which is not behind its first end mark. -/
structure Stream.StandsAt (s : Stream) (file : String) (tokens : List Token) (cursor : Nat) :
    Prop where
  bound : cursor ≤ tokens.findIdx (·.kind = .endOfInput)
  stream : s = .ofTokens file (tokens.drop cursor)

/-- A stream shows a list from an index on up to the first end mark. -/
structure Stream.Remains (s : Stream) (tokens : List Token) (index : Nat) : Prop where
  closed : s.Closed
  ahead : ∃ rest, tokens.drop index = s.pending ++ s.last :: rest
  behind : ∀ t ∈ tokens.take index, t.kind ≠ .endOfInput

namespace Stream

variable {s s' : Stream} {tokens ts rest : List Token} {t : Token} {index : Nat}

theorem remains_completed (file : String) (tokens : List Token) :
    (ofTokens file tokens).Remains (completed file tokens) 0 where
  closed := closed_ofTokens file tokens
  ahead := completed_eq file tokens
  behind := by simp

theorem Remains.getElem? (h : s.Remains tokens index) : tokens[index]? = some s.next := by
  obtain ⟨rest, hahead⟩ := h.ahead
  rw [← List.head?_drop, hahead]
  cases hpending : s.pending with
  | nil => simp [next, hpending]
  | cons t ts => simp [next, hpending]

theorem Remains.exists_get (h : s.Remains tokens index) :
    ∃ hlt : index < tokens.length, tokens[index] = s.next :=
  List.getElem?_eq_some_iff.mp h.getElem?

theorem Remains.drops (h : s.Remains tokens index) (hdrops : s.Drops ts s') :
    s'.Remains tokens (index + ts.length) ∧
      tokens.take (index + ts.length) = tokens.take index ++ ts := by
  obtain ⟨rest, hahead⟩ := h.ahead
  rw [hdrops.pending, List.append_assoc, ← hdrops.last] at hahead
  have htake : tokens.take (index + ts.length) = tokens.take index ++ ts := by
    rw [List.take_add, hahead, List.take_left]
  refine ⟨⟨hdrops.closed h.closed, ⟨rest, ?_⟩, fun t ht => ?_⟩, htake⟩
  · rw [← List.drop_drop, hahead, List.drop_left]
  · rw [htake, List.mem_append] at ht
    rcases ht with ht | ht
    · exact h.behind t ht
    · exact h.closed.pending t (by simp [hdrops.pending, ht])

theorem Remains.cons (h : s.Remains tokens index) (hpending : s.pending = t :: rest) :
    Remains ⟨rest, s.last⟩ tokens (index + 1) := by
  have hdrops : s.Drops [t] ⟨rest, s.last⟩ := ⟨hpending, rfl⟩
  exact (h.drops hdrops).1

theorem Remains.findIdx_eq (h : s.Remains tokens index) :
    tokens.findIdx (·.kind = .endOfInput) = index + s.pending.length := by
  obtain ⟨rest, hahead⟩ := h.ahead
  obtain ⟨hlt, _⟩ := h.exists_get
  have hno : ∀ t ∈ tokens.take index ++ s.pending, t.kind ≠ .endOfInput := by
    intro t ht
    rcases List.mem_append.mp ht with ht | ht
    · exact h.behind t ht
    · exact h.closed.pending t ht
  have hsplit : tokens = (tokens.take index ++ s.pending) ++ s.last :: rest := by
    rw [List.append_assoc, ← hahead, List.take_append_drop]
  have hbefore : (tokens.take index ++ s.pending).findIdx (·.kind = .endOfInput) =
      (tokens.take index ++ s.pending).length :=
    List.findIdx_eq_length_of_false fun t ht => decide_eq_false (hno t ht)
  have hlength : (tokens.take index ++ s.pending).length = index + s.pending.length := by
    rw [List.length_append, List.length_take]
    omega
  have hlast : (s.last :: rest).findIdx (·.kind = .endOfInput) = 0 := by
    simp [List.findIdx_cons, h.closed.last]
  rw [hsplit, List.findIdx_append, hbefore, hlast, if_neg (Nat.lt_irrefl _), hlength, Nat.zero_add]

theorem Remains.standsAt (h : s.Remains tokens index) (file : String) :
    s.StandsAt file tokens index := by
  obtain ⟨rest, hahead⟩ := h.ahead
  have hpending : (s.pending ++ s.last :: rest).takeWhile (·.kind ≠ .endOfInput) = s.pending :=
    body_append_end h.closed.pending h.closed.last rest
  constructor
  · rw [h.findIdx_eq]
    exact Nat.le_add_right _ _
  · rw [hahead, ofTokens, hpending, endMark_of_end h.closed.pending h.closed.last]

theorem current_cons (hpending : s.pending = t :: rest) (ht : t.isExtra = true) :
    current ⟨rest, s.last⟩ = s.current := by
  simp [current, hpending, ht]

theorem Closed.next_isExtra (hs : s.Closed) (hpending : s.pending = []) :
    s.next.isExtra = false := by
  simp [next, hpending, Token.isExtra, hs.last, Kind.isExtra]

end Stream

/-- The index of the first token from `index` on that is no extra. The last token is not passed. -/
def significantFrom (tokens : List Token) (index : Nat) : Nat :=
  if h : index + 1 < tokens.length then
    if tokens[index].isExtra then significantFrom tokens (index + 1) else index
  else index
termination_by tokens.length - index

theorem Stream.Remains.significant_of_next {s : Stream} {tokens : List Token} {index : Nat}
    (h : s.Remains tokens index) (hnext : s.next.isExtra = false) :
    tokens[significantFrom tokens index]? = some s.current := by
  obtain ⟨_, hget⟩ := h.exists_get
  have hindex : significantFrom tokens index = index := by
    rw [significantFrom]
    simp [hget, hnext]
  rw [hindex, h.getElem?, (h.closed.extras_eq_nil hnext).2]

theorem Stream.Remains.significant {s : Stream} {tokens : List Token} {index : Nat}
    (h : s.Remains tokens index) :
    tokens[significantFrom tokens index]? = some s.current := by
  induction hpending : s.pending generalizing s index with
  | nil => exact h.significant_of_next (h.closed.next_isExtra hpending)
  | cons t rest ih =>
    have hnext : s.next = t := by simp [next, hpending]
    cases ht : t.isExtra with
    | false => exact h.significant_of_next (by rw [hnext, ht])
    | true =>
      -- An extra is pending, so the end mark comes later and the loop goes on.
      have htail := h.cons hpending
      obtain ⟨_, hget⟩ := h.exists_get
      rw [significantFrom, dif_pos htail.exists_get.1, if_pos (by rw [hget, hnext, ht]),
        ih htail rfl, current_cons hpending ht]

theorem Frame.flushExtras_eq {g : Frame} (hg : g.stream.Closed)
    (hnext : g.stream.next.isExtra = false) : g.flushExtras = g := by
  have hextras := (hg.extras_eq_nil hnext).1
  have hpending := g.stream.extras_append_dropExtras
  rw [hextras, List.nil_append] at hpending
  have hstream : g.stream.dropExtras = g.stream := congrArg (Stream.mk · g.stream.last) hpending
  simp [Frame.flushExtras, hextras, hstream, Draft.push]

theorem Frame.flushExtras_cons {g : Frame} {t : Token} {rest : List Token}
    (hpending : g.stream.pending = t :: rest) (ht : t.isExtra = true) :
    Frame.flushExtras ⟨⟨rest, g.stream.last⟩, g.draft.push [.leaf t]⟩ = g.flushExtras := by
  simp [Frame.flushExtras, Stream.dropExtras, Stream.extras, Draft.push, hpending, ht]

def Builder.answer {α : Type} (m : Builder α) (g : Frame) : Except Diagnostic α :=
  match m g with
  | .ok a _ => .ok a
  | .error d _ => .error d

def Builder.after {α : Type} (m : Builder α) (g : Frame) : Frame :=
  match m g with
  | .ok _ g' => g'
  | .error _ g' => g'

theorem Builder.after_unit {α : Type} (m : Builder α) (g : Frame) :
    (m >>= fun _ => pure ()).after g = m.after g := by
  unfold Builder.after
  cases h : m g with
  | ok a g' =>
    rw [Builder.bind_ok h]
    rfl
  | error d g' => rw [Builder.bind_error h]

/-- An index, and the draft that tokens are moved into. -/
structure IndexFrame where
  index : Nat
  draft : Draft
deriving DecidableEq, Repr

namespace IndexFrame

variable (tokens : List Token)

def current? (f : IndexFrame) : Option Token := tokens[significantFrom tokens f.index]?

def next? (f : IndexFrame) : Option Token := tokens[min f.index (tokens.length - 1)]?

def flushExtras (f : IndexFrame) : IndexFrame :=
  if h : f.index < tokens.length then
    if tokens[f.index].isExtra then
      flushExtras ⟨f.index + 1, f.draft.push [.leaf tokens[f.index]]⟩
    else f
  else f
termination_by tokens.length - f.index

/-- The index stays in front of an end mark. -/
def take? (f : IndexFrame) : Option IndexFrame := do
  let token ← f.next? tokens
  let index := if token.kind = .endOfInput then f.index else f.index + 1
  return ⟨index, f.draft.push [.leaf token]⟩

def advance? (f : IndexFrame) : Option (Nat × IndexFrame) := do
  let f' ← (f.flushExtras tokens).take? tokens
  return (f'.draft.children.length - 1, f')

/-- Reads a child from what is left. The index moves on by as many tokens as the child has read. -/
def child (file : String) (reader : Reader Tree) (f : IndexFrame) :
    Except Diagnostic Nat × IndexFrame :=
  let f' := f.flushExtras tokens
  let left := Stream.ofTokens file (tokens.drop f'.index)
  match reader left with
  | .ok tree s =>
    (.ok f'.draft.children.length,
      ⟨f'.index + (left.pending.length - s.pending.length), f'.draft.push [tree]⟩)
  | .error d s => (.error d, ⟨f'.index + (left.pending.length - s.pending.length), f'.draft⟩)

/-- Both frames have the same draft, and the stream shows the list from the index on. -/
structure Follows (f : IndexFrame) (g : Frame) : Prop where
  stream : g.stream.Remains tokens f.index
  draft : f.draft = g.draft

section Follows

variable {tokens} {f : IndexFrame} {g : Frame}

theorem Follows.current? (h : f.Follows tokens g) : f.current? tokens = some g.stream.current :=
  h.stream.significant

theorem Follows.next? (h : f.Follows tokens g) : f.next? tokens = some g.stream.next := by
  obtain ⟨hlt, _⟩ := h.stream.exists_get
  have hmin : min f.index (tokens.length - 1) = f.index := by omega
  rw [IndexFrame.next?, hmin, h.stream.getElem?]

theorem Follows.flushExtras_of_next (h : f.Follows tokens g)
    (hnext : g.stream.next.isExtra = false) :
    (f.flushExtras tokens).Follows tokens g.flushExtras := by
  obtain ⟨_, hget⟩ := h.stream.exists_get
  have hstays : f.flushExtras tokens = f := by
    rw [IndexFrame.flushExtras]
    simp [hget, hnext]
  rw [hstays, Frame.flushExtras_eq h.stream.closed hnext]
  exact h

theorem Follows.flushExtras (h : f.Follows tokens g) :
    (f.flushExtras tokens).Follows tokens g.flushExtras := by
  induction hpending : g.stream.pending generalizing f g with
  | nil => exact h.flushExtras_of_next (h.stream.closed.next_isExtra hpending)
  | cons t rest ih =>
    have hnext : g.stream.next = t := by simp [Stream.next, hpending]
    cases ht : t.isExtra with
    | false => exact h.flushExtras_of_next (by rw [hnext, ht])
    | true =>
      obtain ⟨hlt, hget⟩ := h.stream.exists_get
      rw [hnext] at hget
      rw [IndexFrame.flushExtras, dif_pos hlt, hget, if_pos ht,
        ← Frame.flushExtras_cons hpending ht]
      exact ih ⟨h.stream.cons hpending, by rw [h.draft]⟩ rfl

theorem Follows.take? (h : f.Follows tokens g) :
    ∃ f', f.take? tokens = some f' ∧ f'.Follows tokens g.take := by
  rw [IndexFrame.take?, h.next?, Frame.take]
  cases hpending : g.stream.pending with
  | nil =>
    have hnext : g.stream.next = g.stream.last := by simp [Stream.next, hpending]
    refine ⟨_, rfl, ?_, ?_⟩
    · rw [hnext, if_pos h.stream.closed.last]
      exact h.stream
    · rw [hnext, h.draft]
  | cons t rest =>
    have hnext : g.stream.next = t := by simp [Stream.next, hpending]
    have ht : t.kind ≠ .endOfInput := h.stream.closed.pending t (by simp [hpending])
    refine ⟨_, rfl, ?_, ?_⟩
    · rw [hnext, if_neg ht]
      exact h.stream.cons hpending
    · rw [hnext, h.draft]

theorem Follows.advance? (h : f.Follows tokens g) :
    ∃ f', f.advance? tokens = some (g.flushExtras.take.draft.children.length - 1, f') ∧
      f'.Follows tokens g.flushExtras.take := by
  obtain ⟨f', htake, hfollows⟩ := h.flushExtras.take?
  refine ⟨f', ?_, hfollows⟩
  rw [IndexFrame.advance?, htake, ← hfollows.draft]
  rfl

/-- The index behind what a reader has dropped. -/
theorem Follows.drops {s : Stream} {ts : List Token} (h : f.Follows tokens g)
    (hdrops : g.stream.Drops ts s) :
    s.Remains tokens (f.index + (g.stream.pending.length - s.pending.length)) := by
  have hlength : g.stream.pending.length - s.pending.length = ts.length := by
    simp [hdrops.pending]
  rw [hlength]
  exact (h.stream.drops hdrops).1

theorem Follows.child {reader : Reader Tree} (hreader : reader.Conserves) (file : String)
    (h : f.Follows tokens g) :
    ∃ f', f.child tokens file reader = ((Builder.child reader).answer g, f') ∧
      f'.Follows tokens ((Builder.child reader).after g) := by
  have hflush := h.flushExtras
  have hleft := (hflush.stream.standsAt file).stream
  have hread := hreader g.stream.dropExtras h.stream.closed.dropExtras
  simp only [IndexFrame.child, Builder.answer, Builder.after, ← hleft, Builder.child_apply,
    hflush.draft, Frame.flushExtras]
  cases hr : reader g.stream.dropExtras with
  | error d s =>
    rw [hr] at hread
    obtain ⟨ts, hts⟩ := hread
    exact ⟨_, rfl, hflush.drops hts, rfl⟩
  | ok tree s =>
    rw [hr] at hread
    have hlength : (g.draft.push (g.stream.extras.map .leaf)).children.length =
        g.draft.children.length + g.stream.extras.length := by
      simp [Draft.push]
    simp only [hlength]
    exact ⟨_, rfl, hflush.drops hread, by simp [Draft.push]⟩

end Follows

end IndexFrame

end HslTree
