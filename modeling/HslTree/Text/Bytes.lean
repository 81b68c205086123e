/-! Byte lengths. Texts are lists of characters, and every offset counts the bytes of their UTF-8
form. -/

namespace HslTree

def byteLength : List Char → Nat
  | [] => 0
  | c :: cs => c.utf8Size + byteLength cs

/-- Cuts a text after its first `n` bytes. There is no such cut beyond the end of the text or
inside a character. -/
def splitAtByte? : Nat → List Char → Option (List Char × List Char)
  | 0, cs => some ([], cs)
  | _ + 1, [] => none
  | n + 1, c :: cs =>
    if c.utf8Size ≤ n + 1 then
      (splitAtByte? (n + 1 - c.utf8Size) cs).map fun (before, after) => (c :: before, after)
    else none

@[simp]
theorem byteLength_append (cs ds : List Char) :
    byteLength (cs ++ ds) = byteLength cs + byteLength ds := by
  induction cs with
  | nil => simp [byteLength]
  | cons c cs ih => simp [byteLength, ih, Nat.add_assoc]

theorem splitAtByte?_byteLength (cs ds : List Char) :
    splitAtByte? (byteLength cs) (cs ++ ds) = some (cs, ds) := by
  induction cs with
  | nil => simp [byteLength, splitAtByte?]
  | cons c cs ih =>
    have hc := c.utf8Size_pos
    obtain ⟨k, hk⟩ : ∃ k, c.utf8Size + byteLength cs = k + 1 :=
      ⟨c.utf8Size + byteLength cs - 1, by omega⟩
    have hle : c.utf8Size ≤ k + 1 := by omega
    have hsub : k + 1 - c.utf8Size = byteLength cs := by omega
    simp [byteLength, hk, splitAtByte?, hle, hsub, ih]

theorem append_of_splitAtByte? {n : Nat} {cs before after : List Char}
    (h : splitAtByte? n cs = some (before, after)) :
    before ++ after = cs ∧ byteLength before = n := by
  induction cs generalizing n before after with
  | nil =>
    cases n with
    | zero => simp_all [splitAtByte?, byteLength]
    | succ n => simp [splitAtByte?] at h
  | cons c cs ih =>
    cases n with
    | zero =>
      simp only [splitAtByte?, Option.some.injEq, Prod.mk.injEq] at h
      simp [← h.1, ← h.2, byteLength]
    | succ n =>
      simp only [splitAtByte?] at h
      split at h
      · obtain ⟨⟨b, a⟩, hs, he⟩ := Option.map_eq_some_iff.1 h
        simp only [Prod.mk.injEq] at he
        obtain ⟨happ, hlen⟩ := ih hs
        rw [← he.1, ← he.2]
        refine ⟨by simp [happ], ?_⟩
        simp only [byteLength]
        omega
      · simp at h

end HslTree
