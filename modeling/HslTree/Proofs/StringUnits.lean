import HslTree.Proofs.ContentRuns

/-! Bodies of strings, said without the reader: plain characters and escapes. A body is read if and
only if it is made of these up to a quote, and its lexemes tell its units. -/

namespace HslTree

/-- What may stand behind a backslash. -/
inductive IsEscape : List Char → Prop
  | byte {a b : Char} (ha : isHexDigit a = true) (hb : isHexDigit b = true) : IsEscape ['x', a, b]
  | code {a b c d : Char} (ha : isHexDigit a = true) (hb : isHexDigit b = true)
      (hc : isHexDigit c = true) (hd : isHexDigit d = true) : IsEscape ['u', a, b, c, d]
  | braced {digits : List Char} (hne : digits ≠ []) (hdigits : ∀ d ∈ digits, isHexDigit d = true) :
      IsEscape ('u' :: '{' :: (digits ++ ['}']))
  | single {c : Char} (hx : c ≠ 'x') (hu : c ≠ 'u') : IsEscape [c]

section Escape

variable {text body rest : List Char}

theorem takeWhile_append_stop {α : Type} {p : α → Bool} {xs ys : List α}
    (hxs : ∀ x ∈ xs, p x = true) (hys : ∀ y ∈ ys.head?, p y = false) :
    (xs ++ ys).takeWhile p = xs ∧ (xs ++ ys).dropWhile p = ys := by
  rw [List.takeWhile_append_of_pos hxs, List.dropWhile_append_of_pos hxs]
  cases ys with
  | nil => simp
  | cons y ys =>
    have hy : p y = false := hys y rfl
    simp [hy]

theorem readBraced?_append {digits : List Char} (hne : digits ≠ [])
    (hdigits : ∀ d ∈ digits, isHexDigit d = true) (rest : List Char) :
    readBraced? (digits ++ '}' :: rest) = some (digits ++ ['}'], rest) := by
  have hstop : ∀ c ∈ ('}' :: rest).head?, isHexDigit c = false := by
    intro c hc
    obtain rfl : '}' = c := by simpa using hc
    decide
  obtain ⟨htake, hdrop⟩ := takeWhile_append_stop hdigits hstop
  cases digits with
  | nil => exact absurd rfl hne
  | cons d digits =>
    simp only [readBraced?, htake, hdrop]

theorem readHexDigits?_ok {n : Nat} {digits : List Char}
    (h : readHexDigits? n text = some (digits, rest)) :
    digits.length = n ∧ ∀ d ∈ digits, isHexDigit d = true := by
  unfold readHexDigits? at h
  split at h
  · rename_i hdigits
    cases h
    exact ⟨hdigits.1, List.all_eq_true.mp hdigits.2⟩
  · cases h

theorem readBraced?_ok {digits : List Char} (h : readBraced? text = some (digits, rest)) :
    ∃ ds, digits = ds ++ ['}'] ∧ ds ≠ [] ∧ ∀ d ∈ ds, isHexDigit d = true := by
  unfold readBraced? at h
  split at h
  · rename_i d ds after htake hdrop
    cases h
    refine ⟨d :: ds, rfl, List.cons_ne_nil d ds, fun c hc => ?_⟩
    rw [← htake] at hc
    exact List.mem_takeWhile_imp hc
  · cases h

theorem isEscape_of_readEscape? (h : readEscape? text = some (body, rest)) : IsEscape body := by
  unfold readEscape? at h
  split at h
  · obtain ⟨⟨digits, after⟩, hdigits, he⟩ := Option.map_eq_some_iff.1 h
    cases he
    obtain ⟨hlength, hhex⟩ := readHexDigits?_ok hdigits
    obtain ⟨a, b, rfl⟩ := List.length_eq_two.mp hlength
    exact .byte (hhex a (by simp)) (hhex b (by simp))
  · obtain ⟨⟨digits, after⟩, hdigits, he⟩ := Option.map_eq_some_iff.1 h
    cases he
    obtain ⟨ds, rfl, hne, hhex⟩ := readBraced?_ok hdigits
    exact .braced hne hhex
  · obtain ⟨⟨digits, after⟩, hdigits, he⟩ := Option.map_eq_some_iff.1 h
    cases he
    obtain ⟨hlength, hhex⟩ := readHexDigits?_ok hdigits
    obtain ⟨a, ds, rfl⟩ := List.exists_cons_of_length_eq_add_one hlength
    obtain ⟨b, c, d, rfl⟩ := List.length_eq_three.mp (Nat.succ.inj hlength)
    exact .code (hhex a (by simp)) (hhex b (by simp)) (hhex c (by simp)) (hhex d (by simp))
  · rename_i hx hbrace hu
    cases h
    exact .single hx hu
  · cases h

/-- No escape is the beginning of another, so what follows it does not matter. -/
theorem IsEscape.readEscape? (h : IsEscape body) (rest : List Char) :
    readEscape? (body ++ rest) = some (body, rest) := by
  cases h with
  | byte ha hb => simp [HslTree.readEscape?, readHexDigits?, ha, hb]
  | @code a b c d ha hb hc hd =>
    have hbrace : a ≠ '{' := by
      rintro rfl
      cases ha
    simp [HslTree.readEscape?, readHexDigits?, ha, hb, hc, hd, hbrace]
  | @braced digits hne hdigits =>
    have hread := readBraced?_append hne hdigits rest
    simp [HslTree.readEscape?, hread]
  | @single c hx hu => simp [HslTree.readEscape?, hu]

theorem isEscape_iff : IsEscape body ↔ readEscape? body = some (body, []) := by
  constructor
  · intro h
    simpa using h.readEscape? []
  · exact isEscape_of_readEscape?

instance : DecidablePred IsEscape := fun _ => decidable_of_iff _ isEscape_iff.symm

theorem readEscape_of_isEscape (h : IsEscape body) (rest : List Char) :
    readEscape (body ++ rest) = .ok (body, rest) := by
  simp [readEscape, h.readEscape? rest]

theorem isEscape_of_readEscape (h : readEscape text = .ok (body, rest)) : IsEscape body := by
  unfold readEscape at h
  split at h
  · rename_i hp
    cases h
    exact isEscape_of_readEscape? hp
  · split at h <;> cases h

end Escape

inductive StringUnit
  | plain (c : Char) (hc : isPlain c = true)
  | escape (body : List Char) (hbody : IsEscape body)
deriving DecidableEq

namespace StringUnit

def text : StringUnit → List Char
  | plain c _ => [c]
  | escape body _ => '\\' :: body

def textOf (units : List StringUnit) : List Char := units.flatMap text

/-- The lexemes of units when each plain character is a run of its own. -/
def pieces : Bool → List StringUnit → List Lexeme
  | _, [] => []
  | _, plain c _ :: units => ⟨.content, [c]⟩ :: pieces false units
  | ae, escape body _ :: units => escapeLexemes ae body ++ pieces true units

/-- The lexemes between the quotes: a run for each stretch of plain characters, each escape on its
own, and an empty run between two escapes in a row. -/
def lexemes (units : List StringUnit) : List Lexeme := mergeLexemes (pieces false units)

@[simp]
theorem textOf_cons (unit : StringUnit) (units : List StringUnit) :
    textOf (unit :: units) = unit.text ++ textOf units := rfl

@[simp]
theorem textOf_append (units units' : List StringUnit) :
    textOf (units ++ units') = textOf units ++ textOf units' := by
  simp [textOf]

end StringUnit

theorem kind_of_mem_glue {P : Kind → Prop} (hcontent : P .content) {l : Lexeme} {ms : List Lexeme}
    (hl : P l.kind) (hms : ∀ m ∈ ms, P m.kind) :
    ∀ n ∈ glue Lexeme.isRun Lexeme.join l ms, P n.kind := by
  cases ms with
  | nil => simpa [glue] using hl
  | cons m ms =>
    by_cases hrun : (l.isRun && m.isRun) = true
    · simpa [glue, hrun, Lexeme.join, hcontent] using fun n hn => hms n (by simp [hn])
    · simpa [glue, hrun, hl] using hms

theorem kind_of_mem_mergeLexemes {P : Kind → Prop} (hcontent : P .content) {ls : List Lexeme}
    (h : ∀ l ∈ ls, P l.kind) : ∀ l ∈ mergeLexemes ls, P l.kind := by
  induction ls with
  | nil => simp [mergeLexemes, mergeRuns]
  | cons l ls ih =>
    have hrest := ih fun m hm => h m (by simp [hm])
    exact kind_of_mem_glue hcontent (h l (by simp)) hrest

theorem StringUnit.kind_of_mem_pieces (ae : Bool) (units : List StringUnit) :
    ∀ l ∈ pieces ae units, l.kind = .content ∨ l.kind = .escape := by
  induction units generalizing ae with
  | nil => simp [pieces]
  | cons unit units ih =>
    cases unit with
    | plain c hc => simpa [pieces] using ih false
    | escape body hbody => cases ae <;> simpa [pieces, escapeLexemes] using ih true

theorem StringUnit.kind_of_mem_lexemes {units : List StringUnit} :
    ∀ l ∈ lexemes units, l.kind = .content ∨ l.kind = .escape :=
  kind_of_mem_mergeLexemes (P := fun k => k = .content ∨ k = .escape) (.inl rfl)
    (kind_of_mem_pieces false units)

def stringLexemes (units : List StringUnit) : List Lexeme :=
  ⟨.quote, ['"']⟩ :: (StringUnit.lexemes units ++ [⟨.quote, ['"']⟩])

theorem readContent_singleRun {c : Char} {rest : List Char} (hc : isPlain c = true)
    (hrest : '"' ∈ rest) : readContent singleRun (c :: rest) = .ok ([c], rest) := by
  have hall : (c :: rest).all isPlain = false := by
    simp only [List.all_cons, hc, Bool.true_and, List.all_eq_false]
    exact ⟨'"', hrest, by decide⟩
  have hrun : plainRun? (byteLength [c]) (c :: rest) = some ([c], rest) :=
    plainRun?_byteLength (List.cons_ne_nil c []) (by simp [hc]) rest
  have htake : (c :: rest).take 1 = [c] := rfl
  simp only [readContent, singleRun, hall, Bool.false_eq_true, if_false, htake, hrun]

section Units

variable {ae : Bool}

theorem readStringBody_pieces (units : List StringUnit) (rest : List Char) :
    readStringBody singleRun ae (StringUnit.textOf units ++ '"' :: rest) =
      ⟨StringUnit.pieces ae units ++ [⟨.quote, ['"']⟩], rest, none⟩ := by
  induction units generalizing ae with
  | nil => exact readStringBody_quote
  | cons unit units ih =>
    cases unit with
    | plain c hc =>
      have hrun : readContent singleRun (c :: (StringUnit.textOf units ++ '"' :: rest)) =
          .ok ([c], StringUnit.textOf units ++ '"' :: rest) :=
        readContent_singleRun hc (by simp)
      have htext : StringUnit.textOf (.plain c hc :: units) ++ '"' :: rest =
          c :: (StringUnit.textOf units ++ '"' :: rest) := rfl
      rw [htext, readStringBody_content hc hrun, ih]
      rfl
    | escape body hbody =>
      have hescape := readEscape_of_isEscape hbody (StringUnit.textOf units ++ '"' :: rest)
      have htext : StringUnit.textOf (.escape body hbody :: units) ++ '"' :: rest =
          '\\' :: (body ++ (StringUnit.textOf units ++ '"' :: rest)) := by
        simp [StringUnit.text]
      rw [htext, readStringBody_escape hescape, ih]
      simp [Reading.after, StringUnit.pieces]

/-- Units up to a quote are read, whatever stands behind the quote. -/
theorem readString?_units (units : List StringUnit) (rest : List Char) :
    readString? longestRun ('"' :: (StringUnit.textOf units ++ '"' :: rest)) =
      some ⟨stringLexemes units, rest, none⟩ := by
  have hmerged := readStringBody_merged false (StringUnit.textOf units ++ '"' :: rest)
    (.inl singleRun_conforms)
  rw [readStringBody_pieces] at hmerged
  have hlexemes := mergeLexemes_append_single (StringUnit.pieces false units)
    (l := ⟨.quote, ['"']⟩) rfl
  simp only [readString?, hmerged, Reading.merged, hlexemes]
  rfl

theorem exists_units_of_plain {run : List Char} (h : run.all isPlain = true) :
    ∃ units, StringUnit.textOf units = run := by
  induction run with
  | nil => exact ⟨[], rfl⟩
  | cons c run ih =>
    obtain ⟨hc, hrun⟩ : isPlain c = true ∧ run.all isPlain = true := by simpa using h
    obtain ⟨units, hunits⟩ := ih hrun
    exact ⟨.plain c hc :: units, by simp [StringUnit.text, hunits]⟩

theorem exists_units_of_body {scanner : Scanner} (text : List Char)
    (h : (readStringBody scanner ae text).fault? = none) :
    ∃ units, text = StringUnit.textOf units ++ '"' :: (readStringBody scanner ae text).rest := by
  fun_induction readStringBody scanner ae text with
  | case1 => cases h
  | case2 => exact ⟨[], rfl⟩
  | case3 ae rest body rest' hbody ih =>
    obtain ⟨units, hunits⟩ := ih h
    have hescape := isEscape_of_readEscape hbody
    have happend := readEscape_ok hbody
    refine ⟨.escape body hescape :: units, ?_⟩
    rw [StringUnit.textOf_cons, List.append_assoc, Reading.after_rest, ← hunits, ← happend]
    rfl
  | case4 => cases h
  | case5 ae c rest _ _ run rest' hok ih =>
    obtain ⟨units, hunits⟩ := ih h
    obtain ⟨first, hfirst⟩ := exists_units_of_plain (readContent_plain hok)
    refine ⟨first ++ units, ?_⟩
    rw [← (readContent_ok hok).1, StringUnit.textOf_append, hfirst, List.append_assoc,
      Reading.after_rest, ← hunits]
  | case6 => cases h

theorem exists_units_of_string {text : List Char} {r : Reading}
    (h : readString? longestRun text = some r) (hfault : r.fault? = none) :
    ∃ units, r.lexemes = stringLexemes units ∧
      text = '"' :: (StringUnit.textOf units ++ '"' :: r.rest) := by
  unfold readString? at h
  split at h
  · rename_i rest
    have hr := Option.some.inj h
    subst hr
    obtain ⟨units, hunits⟩ := exists_units_of_body rest hfault
    have hread := readString?_units units (readStringBody longestRun false rest).rest
    rw [← hunits] at hread
    refine ⟨units, ?_, by rw [Reading.after_rest, ← hunits]⟩
    exact congrArg Reading.lexemes (Option.some.inj hread)
  · cases h

end Units

end HslTree
