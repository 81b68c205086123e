import HslTree.Proofs.Coverage

/-! Texts cut at byte offsets, and the bytes of a text. A cut inside a character, beyond the end or
with its offsets swapped has no result. Where an escape goes wrong is the same place whether its
bytes or its characters are counted. -/

namespace HslTree

/-- Whether a byte offset lies between two characters of a text or at one of its ends. -/
def isBoundary (text : List Char) (n : Nat) : Bool := (splitAtByte? n text).isSome

def slice? (text : List Char) (first last : Nat) : Option (List Char) :=
  if first ≤ last then do
    let (_, rest) ← splitAtByte? first text
    let (piece, _) ← splitAtByte? (last - first) rest
    return piece
  else none

def sliceFrom? (text : List Char) (first : Nat) : Option (List Char) :=
  (splitAtByte? first text).map (·.2)

theorem slice?_append (before piece after : List Char) :
    slice? (before ++ (piece ++ after)) (byteLength before)
      (byteLength before + byteLength piece) = some piece := by
  have hlast : byteLength before + byteLength piece - byteLength before = byteLength piece := by
    omega
  rw [slice?, if_pos (Nat.le_add_right _ _), splitAtByte?_byteLength, hlast]
  change (do
    let (piece, _) ← splitAtByte? (byteLength piece) (piece ++ after)
    return piece) = some piece
  rw [splitAtByte?_byteLength]
  rfl

example : slice? ['a', 'é', 'b'] 1 3 = some ['é'] ∧ slice? ['a', 'é', 'b'] 1 2 = none := by decide

theorem slice?_zero_append (piece after : List Char) :
    slice? (piece ++ after) 0 (byteLength piece) = some piece := by
  have h := slice?_append [] piece after
  rwa [List.nil_append, byteLength, Nat.zero_add] at h

theorem exists_of_slice? {text piece : List Char} {first last : Nat}
    (h : slice? text first last = some piece) :
    ∃ before after, text = before ++ (piece ++ after) ∧ first = byteLength before ∧
      last = byteLength before + byteLength piece := by
  unfold slice? at h
  split at h
  · obtain ⟨⟨before, rest⟩, hbefore, h⟩ := Option.bind_eq_some_iff.mp h
    obtain ⟨⟨inside, after⟩, hinside, hpiece⟩ := Option.bind_eq_some_iff.mp h
    obtain rfl : inside = piece := Option.some.inj hpiece
    obtain ⟨htext, hfirst⟩ := append_of_splitAtByte? hbefore
    obtain ⟨hrest, hlength⟩ := append_of_splitAtByte? hinside
    refine ⟨before, after, ?_, hfirst.symm, by omega⟩
    rw [hrest, htext]
  · cases h

theorem le_of_slice? {text piece : List Char} {first last : Nat}
    (h : slice? text first last = some piece) : last ≤ byteLength text := by
  obtain ⟨before, after, rfl, _, rfl⟩ := exists_of_slice? h
  rw [byteLength_append, byteLength_append]
  omega

theorem sliceFrom?_append (before after : List Char) :
    sliceFrom? (before ++ after) (byteLength before) = some after := by
  rw [sliceFrom?, splitAtByte?_byteLength]
  rfl

section Bytes

def utf8Bytes (text : List Char) : List UInt8 := text.flatMap String.utf8EncodeChar

def isHexByte (b : UInt8) : Bool :=
  (48 ≤ b && b ≤ 57) || (97 ≤ b && b ≤ 102) || (65 ≤ b && b ≤ 70)

/-- How many of the bytes behind a backslash are right before the first wrong one: those that some
escape could have there. -/
def escapeErrorOffset (bytes : List UInt8) : Nat :=
  let isHexAt (i : Nat) : Bool := bytes[i]?.any isHexByte
  if bytes[0]? = some 'x'.toUInt8 then ((List.range' 1 2).find? (!isHexAt ·)).getD 3
  else if bytes[0]? = some 'u'.toUInt8 then
    if bytes[1]? = some '{'.toUInt8 then 2 + ((bytes.drop 2).takeWhile isHexByte).length
    else ((List.range' 1 4).find? (!isHexAt ·)).getD 5
  else 0

variable {c d : Char}

/-- An ASCII character is its own byte, and the bytes of all others start beyond ASCII. -/
theorem utf8EncodeChar_cases (c : Char) :
    (c.toNat ≤ 127 ∧ String.utf8EncodeChar c = [UInt8.ofNat c.toNat]) ∨
      (127 < c.toNat ∧ ∃ b bs, String.utf8EncodeChar c = b :: bs ∧ 127 < b.toNat) := by
  rcases Nat.lt_or_ge 127 c.toNat with hc | hc
  · refine .inr ⟨hc, ?_⟩
    have hnot : ¬ c.val.toNat ≤ 127 := Nat.not_le.mpr hc
    simp only [String.utf8EncodeChar, if_neg hnot]
    split
    · refine ⟨_, _, rfl, ?_⟩
      rw [UInt8.toNat_ofNat']
      omega
    · split
      · refine ⟨_, _, rfl, ?_⟩
        rw [UInt8.toNat_ofNat']
        omega
      · refine ⟨_, _, rfl, ?_⟩
        rw [UInt8.toNat_ofNat']
        omega
  · have hle : c.val.toNat ≤ 127 := hc
    refine .inl ⟨hc, ?_⟩
    simp only [String.utf8EncodeChar, if_pos hle]
    rfl

theorem utf8Bytes_head_eq_iff (hd : d.toNat ≤ 127) (text : List Char) :
    (utf8Bytes text)[0]? = some d.toUInt8 ↔ text.head? = some d := by
  have hbyte : d.toUInt8.toNat = d.toNat := by
    change d.toNat % 2 ^ 8 = d.toNat
    omega
  cases text with
  | nil => simp [utf8Bytes]
  | cons c text =>
    have hcons : utf8Bytes (c :: text) = String.utf8EncodeChar c ++ utf8Bytes text := rfl
    rw [hcons, List.head?_cons, Option.some.injEq]
    rcases utf8EncodeChar_cases c with ⟨hc, hencode⟩ | ⟨hc, b, bs, hencode, hb⟩
    · rw [hencode, List.singleton_append, List.getElem?_cons_zero, Option.some.injEq]
      constructor
      · intro h
        have hnat := congrArg UInt8.toNat h
        rw [hbyte, UInt8.toNat_ofNat'] at hnat
        exact Char.toNat_inj.mp (by omega)
      · rintro rfl
        apply UInt8.toNat_inj.mp
        rw [hbyte, UInt8.toNat_ofNat']
        omega
    · rw [hencode, List.cons_append, List.getElem?_cons_zero, Option.some.injEq]
      constructor
      · rintro rfl
        omega
      · rintro rfl
        omega

theorem utf8Bytes_cons_of_ascii (hc : c.toNat ≤ 127) (text : List Char) :
    utf8Bytes (c :: text) = UInt8.ofNat c.toNat :: utf8Bytes text := by
  have hcons : utf8Bytes (c :: text) = String.utf8EncodeChar c ++ utf8Bytes text := rfl
  rcases utf8EncodeChar_cases c with ⟨_, hencode⟩ | ⟨hgt, _⟩
  · rw [hcons, hencode]
    rfl
  · omega

theorem isHexByte_ofNat (hc : c.toNat ≤ 127) :
    isHexByte (UInt8.ofNat c.toNat) = isHexDigit c := by
  have hbyte : (UInt8.ofNat c.toNat).toNat = c.toNat := by
    rw [UInt8.toNat_ofNat']
    omega
  have hval : c.val.toNat = c.toNat := rfl
  rw [Bool.eq_iff_iff]
  simp [isHexByte, isHexDigit, Char.isDigit, Char.le_def, UInt8.le_iff_toNat_le,
    UInt32.le_iff_toNat_le, hbyte, hval]

theorem isHexByte_of_gt {b : UInt8} (hb : 127 < b.toNat) : isHexByte b = false := by
  rw [← Bool.not_eq_true]
  intro h
  have hdigit : (48 ≤ b.toNat ∧ b.toNat ≤ 57 ∨ 97 ≤ b.toNat ∧ b.toNat ≤ 102) ∨
      65 ≤ b.toNat ∧ b.toNat ≤ 70 := by
    simpa [isHexByte, UInt8.le_iff_toNat_le] using h
  omega

theorem toNat_le_of_isHexDigit (h : isHexDigit c = true) : c.toNat ≤ 127 := by
  have hdigit : (48 ≤ c.toNat ∧ c.toNat ≤ 57 ∨ 97 ≤ c.toNat ∧ c.toNat ≤ 102) ∨
      65 ≤ c.toNat ∧ c.toNat ≤ 70 := by
    simpa [isHexDigit, Char.isDigit, Char.le_def, UInt32.le_iff_toNat_le] using h
  omega

theorem length_takeWhile_isHexByte (n : Nat) (text : List Char) :
    (((utf8Bytes text).take n).takeWhile isHexByte).length =
      byteLength ((text.take n).takeWhile isHexDigit) := by
  induction text generalizing n with
  | nil => simp [utf8Bytes, byteLength]
  | cons c text ih =>
    cases n with
    | zero => rfl
    | succ n =>
      rw [List.take_succ_cons]
      by_cases hhex : isHexDigit c = true
      · have hc := toNat_le_of_isHexDigit hhex
        have hsize : c.utf8Size = 1 := Char.utf8Size_eq_one_iff.mpr (UInt32.le_iff_toNat_le.mpr hc)
        rw [utf8Bytes_cons_of_ascii hc, List.take_succ_cons, List.takeWhile_cons_of_pos hhex,
          List.takeWhile_cons_of_pos ((isHexByte_ofNat hc).trans hhex), List.length_cons, ih,
          byteLength, hsize, Nat.add_comm]
      · rw [List.takeWhile_cons_of_neg hhex]
        rcases utf8EncodeChar_cases c with ⟨hc, _⟩ | ⟨_, b, bs, hencode, hb⟩
        · rw [utf8Bytes_cons_of_ascii hc, List.take_succ_cons,
            List.takeWhile_cons_of_neg (by rwa [isHexByte_ofNat hc])]
          rfl
        · have hcons : utf8Bytes (c :: text) = b :: (bs ++ utf8Bytes text) := by
            change String.utf8EncodeChar c ++ utf8Bytes text = b :: (bs ++ utf8Bytes text)
            rw [hencode, List.cons_append]
          rw [hcons, List.take_succ_cons,
            List.takeWhile_cons_of_neg (by rw [isHexByte_of_gt hb]; exact Bool.false_ne_true)]
          rfl

theorem length_takeWhile_isHexByte_all (text : List Char) :
    ((utf8Bytes text).takeWhile isHexByte).length = byteLength (text.takeWhile isHexDigit) := by
  have h := length_takeWhile_isHexByte ((utf8Bytes text).length + text.length) text
  rwa [List.take_of_length_le (Nat.le_add_right _ _),
    List.take_of_length_le (Nat.le_add_left _ _)] at h

/-- Looking for the first index of a range that fails a test finds the end of the run of elements
that pass it. -/
theorem find?_range'_getElem? (p : UInt8 → Bool) (bytes : List UInt8) (k n : Nat) :
    ((List.range' k n).find? (!bytes[·]?.any p)).getD (k + n) =
      k + (((bytes.drop k).take n).takeWhile p).length := by
  induction n generalizing k with
  | zero => simp
  | succ n ih =>
    rw [List.range'_succ, List.find?_cons]
    cases hdrop : bytes.drop k with
    | nil =>
      have hnone : bytes[k]? = none := by
        rw [← List.head?_drop, hdrop]
        rfl
      simp [hnone]
    | cons b rest =>
      have hsome : bytes[k]? = some b := by
        rw [← List.head?_drop, hdrop]
        rfl
      have hrest : bytes.drop (k + 1) = rest := by
        rw [← List.tail_drop, hdrop]
        rfl
      have hnext := ih (k + 1)
      rw [hrest] at hnext
      rw [List.take_succ_cons]
      by_cases hp : p b = true
      · rw [List.takeWhile_cons_of_pos hp, List.length_cons]
        simp only [hsome, Option.any_some, hp, Bool.not_true]
        rw [show k + (n + 1) = k + 1 + n by omega, hnext]
        omega
      · rw [List.takeWhile_cons_of_neg hp]
        simp [hsome, hp]

theorem head?_ne {text : List Char} (h : ∀ rest, text = d :: rest → False) :
    ¬ text.head? = some d := by
  intro hhead
  obtain ⟨rest, htext⟩ := List.head?_eq_some_iff.mp hhead
  exact h rest htext

theorem find?_digits (hc : c.toNat ≤ 127) (n : Nat) (text : List Char) :
    ((List.range' 1 n).find? (!(utf8Bytes (c :: text))[·]?.any isHexByte)).getD (1 + n) =
      1 + byteLength ((text.take n).takeWhile isHexDigit) := by
  rw [find?_range'_getElem?, utf8Bytes_cons_of_ascii hc, List.drop_succ_cons, List.drop_zero,
    length_takeWhile_isHexByte]

/-- Counted in bytes or in characters, the right part of an escape is the same. -/
theorem escapeErrorOffset_utf8Bytes (text : List Char) :
    escapeErrorOffset (utf8Bytes text) = byteLength (escapeStem text) := by
  have hx := utf8Bytes_head_eq_iff (d := 'x') (by decide) text
  have hu := utf8Bytes_head_eq_iff (d := 'u') (by decide) text
  fun_cases escapeStem text with
  | case1 rest =>
    rw [escapeErrorOffset, if_pos (hx.mpr rfl)]
    exact find?_digits (by decide) 2 rest
  | case2 rest =>
    have hbrace : (utf8Bytes ('u' :: '{' :: rest))[1]? = some '{'.toUInt8 :=
      (utf8Bytes_head_eq_iff (by decide) ('{' :: rest)).mpr rfl
    rw [escapeErrorOffset, if_neg (mt hx.mp (by simp)), if_pos (hu.mpr rfl), if_pos hbrace]
    have hdigits := length_takeWhile_isHexByte_all rest
    change 2 + ((utf8Bytes rest).takeWhile isHexByte).length = _
    rw [hdigits, byteLength, byteLength, ← Nat.add_assoc]
    rfl
  | case3 rest hbrace =>
    have hnot : ¬ (utf8Bytes ('u' :: rest))[1]? = some '{'.toUInt8 :=
      mt (utf8Bytes_head_eq_iff (by decide) rest).mp (head?_ne hbrace)
    rw [escapeErrorOffset, if_neg (mt hx.mp (by simp)), if_pos (hu.mpr rfl), if_neg hnot]
    exact find?_digits (by decide) 4 rest
  | case4 _ hnotx _ hnotu =>
    rw [escapeErrorOffset, if_neg (mt hx.mp (head?_ne hnotx)), if_neg (mt hu.mp (head?_ne hnotu))]
    rfl

end Bytes

end HslTree
