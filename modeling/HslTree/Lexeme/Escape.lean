import HslTree.Lexeme.Numeral

/-! Escapes inside a string: a backslash and a character, or a backslash and a code point in
hexadecimal. All functions here look at the text behind the backslash. -/

namespace HslTree

/-- The longest beginning of the text that some escape could have: all of it that is right before
the first wrong character. -/
def escapeStem : List Char → List Char
  | 'x' :: rest => 'x' :: (rest.take 2).takeWhile isHexDigit
  | 'u' :: '{' :: rest => 'u' :: '{' :: rest.takeWhile isHexDigit
  | 'u' :: rest => 'u' :: (rest.take 4).takeWhile isHexDigit
  | _ => []

def readHexDigits? (n : Nat) (text : List Char) : Option (List Char × List Char) :=
  if (text.take n).length = n ∧ (text.take n).all isHexDigit then
    some (text.take n, text.drop n)
  else none

def readBraced? (text : List Char) : Option (List Char × List Char) :=
  match text.takeWhile isHexDigit, text.dropWhile isHexDigit with
  | d :: digits, '}' :: after => some (d :: digits ++ ['}'], after)
  | _, _ => none

/-- The body of the escape at the start of a text, and what follows it: two digits after `x`, four
digits after `u`, any number of digits in braces after `u`, or any other character alone. -/
def readEscape? : List Char → Option (List Char × List Char)
  | 'x' :: rest => (readHexDigits? 2 rest).map fun (digits, after) => ('x' :: digits, after)
  | 'u' :: '{' :: rest =>
    (readBraced? rest).map fun (digits, after) => ('u' :: '{' :: digits, after)
  | 'u' :: rest => (readHexDigits? 4 rest).map fun (digits, after) => ('u' :: digits, after)
  | c :: rest => some ([c], rest)
  | [] => none

theorem append_of_readHexDigits? {n : Nat} {text digits rest : List Char}
    (h : readHexDigits? n text = some (digits, rest)) : digits ++ rest = text := by
  unfold readHexDigits? at h
  split at h
  · simp only [Option.some.injEq, Prod.mk.injEq] at h
    rw [← h.1, ← h.2, List.take_append_drop]
  · simp at h

theorem append_of_readBraced? {text digits rest : List Char}
    (h : readBraced? text = some (digits, rest)) : digits ++ rest = text := by
  unfold readBraced? at h
  split at h
  · rename_i d ds after ht hd
    simp only [Option.some.injEq, Prod.mk.injEq] at h
    have happ : text.takeWhile isHexDigit ++ text.dropWhile isHexDigit = text :=
      List.takeWhile_append_dropWhile
    rw [ht, hd] at happ
    rw [← h.1, ← h.2, ← happ]
    simp
  · simp at h

theorem append_of_readEscape? {text body rest : List Char}
    (h : readEscape? text = some (body, rest)) : body ++ rest = text ∧ body ≠ [] := by
  unfold readEscape? at h
  split at h
  · obtain ⟨⟨digits, after⟩, hd, he⟩ := Option.map_eq_some_iff.1 h
    cases he
    simp [append_of_readHexDigits? hd]
  · obtain ⟨⟨digits, after⟩, hd, he⟩ := Option.map_eq_some_iff.1 h
    cases he
    simp [append_of_readBraced? hd]
  · obtain ⟨⟨digits, after⟩, hd, he⟩ := Option.map_eq_some_iff.1 h
    cases he
    simp [append_of_readHexDigits? hd]
  · cases h
    simp
  · simp at h

end HslTree
