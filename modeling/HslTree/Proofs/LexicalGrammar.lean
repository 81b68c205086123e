import HslTree.Proofs.StringUnits

/-! The forms of tokens, said without the reader. A pattern reads lexemes if and only if they have
its form and the character behind them lets them end there. -/

namespace HslTree

section Characters

variable {c : Char}

theorem CharSet.exists_range {set : CharSet} (h : set.contains c = true) :
    ∃ range ∈ set, range.1 ≤ c.toNat ∧ c.toNat ≤ range.2 := by
  induction set with
  | nil => cases h
  | cons range set ih =>
    obtain ⟨first, last⟩ := range
    by_cases hfirst : c.toNat < first
    · simp [CharSet.contains, hfirst] at h
    · have hcases : c.toNat ≤ last ∨ CharSet.contains set c = true := by
        simpa [CharSet.contains, hfirst] using h
      rcases hcases with hlast | hset
      · exact ⟨(first, last), by simp, by omega, hlast⟩
      · obtain ⟨r, hr, hbounds⟩ := ih hset
        exact ⟨r, by simp [hr], hbounds⟩

theorem isWordChar_of_isBlank (h : isBlank c = true) : isWordChar c = false := by
  have hcodes : ∀ range ∈ blankChars, ∀ n ∈ List.range' range.1 (range.2 + 1 - range.1),
      isWordChar (Char.ofNat n) = false := by decide +kernel
  obtain ⟨range, hrange, hfirst, hlast⟩ := CharSet.exists_range h
  have hc := hcodes range hrange c.toNat (List.mem_range'_1.mpr (by omega))
  rwa [Char.ofNat_toNat] at hc

theorem toNat_lt_of_isAsciiWordChar (h : isAsciiWordChar c = true) : c.toNat < 128 := by
  simp only [isAsciiWordChar, Char.isAlphanum, Char.isAlpha, Char.isUpper, Char.isLower,
    Char.isDigit, Bool.or_eq_true, Bool.and_eq_true, decide_eq_true_eq, beq_iff_eq] at h
  rcases h with ((⟨_, h⟩ | ⟨_, h⟩) | ⟨_, h⟩) | rfl
  · exact Nat.lt_of_le_of_lt (UInt32.le_iff_toNat_le.mp h) (by decide)
  · exact Nat.lt_of_le_of_lt (UInt32.le_iff_toNat_le.mp h) (by decide)
  · exact Nat.lt_of_le_of_lt (UInt32.le_iff_toNat_le.mp h) (by decide)
  · decide

theorem isWordChar_of_ascii (h : c.toNat < 128) : isWordChar c = isAsciiWordChar c := by
  have hcodes : ∀ n < 128, isWordChar (Char.ofNat n) = isAsciiWordChar (Char.ofNat n) := by
    decide +kernel
  have hc := hcodes c.toNat h
  rwa [Char.ofNat_toNat] at hc

theorem isWordChar_of_isAsciiWordChar (h : isAsciiWordChar c = true) : isWordChar c = true := by
  rw [isWordChar_of_ascii (toNat_lt_of_isAsciiWordChar h), h]

theorem isAsciiWordChar_of_isBlank (h : isBlank c = true) : isAsciiWordChar c = false := by
  by_contra hword
  have hc := isWordChar_of_isAsciiWordChar (by simpa using hword)
  rw [isWordChar_of_isBlank h] at hc
  cases hc

theorem isBlank_of_isAsciiWordChar (h : isAsciiWordChar c = true) : isBlank c = false := by
  by_contra hblank
  rw [isAsciiWordChar_of_isBlank (by simpa using hblank)] at h
  cases h

theorem Radix.isAsciiWordChar_of_isBody {radix : Radix} (h : radix.isBody c = true) :
    isAsciiWordChar c = true := by
  simp only [isAsciiWordChar, Char.isAlphanum, Char.isAlpha, Char.isUpper, Char.isLower,
    Char.isDigit, Bool.or_eq_true, Bool.and_eq_true, decide_eq_true_eq, beq_iff_eq]
  cases radix with
  | binary =>
    obtain (rfl | rfl) | rfl : (c = '0' ∨ c = '1') ∨ c = '_' := by
      simpa [isBody, isDigit] using h
    all_goals decide
  | octal | decimal | hexadecimal =>
    simp only [isBody, isDigit, isHexDigit, Char.isDigit, Bool.or_eq_true, Bool.and_eq_true,
      decide_eq_true_eq, beq_iff_eq] at h
    grind [Char.le_def, UInt32.le_iff_toNat_le]

theorem Radix.isBody_of_startsBody {radix : Radix} (h : radix.startsBody c = true) :
    radix.isBody c = true := by
  cases radix with
  | decimal => exact Bool.or_eq_true_iff.mpr (.inl h)
  | binary | octal | hexadecimal => exact h

end Characters

def isIdentifier : List Char → Bool
  | c :: rest => (c.isAlpha || c == '_') && rest.all isAsciiWordChar
  | [] => false

namespace Radix

def isDigits (radix : Radix) : List Char → Bool
  | c :: body => radix.startsBody c && body.all radix.isBody
  | [] => false

/-- Digits behind the marker of their base. -/
def isNumeral (radix : Radix) (text : List Char) : Bool :=
  radix.marker.isPrefixOf text && radix.isDigits (text.drop radix.marker.length)

theorem isNumeral_iff {radix : Radix} {text : List Char} :
    radix.isNumeral text = true ↔ ∃ c body, text = radix.marker ++ c :: body ∧
      radix.startsBody c = true ∧ ∀ d ∈ body, radix.isBody d = true := by
  simp only [isNumeral, Bool.and_eq_true, List.isPrefixOf_iff_prefix]
  constructor
  · rintro ⟨⟨digits, rfl⟩, hdigits⟩
    rw [List.drop_left] at hdigits
    cases digits with
    | nil => cases hdigits
    | cons c body =>
      obtain ⟨hc, hbody⟩ : radix.startsBody c = true ∧ body.all radix.isBody = true := by
        simpa [isDigits] using hdigits
      exact ⟨c, body, rfl, hc, List.all_eq_true.mp hbody⟩
  · rintro ⟨c, body, rfl, hc, hbody⟩
    refine ⟨List.prefix_append _ _, ?_⟩
    rw [List.drop_left]
    simpa [isDigits, hc] using hbody

end Radix

/-- A number of any base. -/
def isNumeral (text : List Char) : Bool :=
  [Radix.hexadecimal, .binary, .octal, .decimal].any (·.isNumeral text)

section Numbers

variable {radix : Radix} {text u v : List Char}

theorem Radix.read?_of_isNumeral (hu : radix.isNumeral u = true)
    (hv : ∀ c ∈ v.head?, isAsciiWordChar c = false) : radix.read? (u ++ v) = some (u, v) := by
  obtain ⟨c, body, rfl, hc, hbody⟩ := isNumeral_iff.mp hu
  have hstop : ∀ d ∈ v.head?, radix.isBody d = false := by
    intro d hd
    by_contra hdigit
    have hword := isAsciiWordChar_of_isBody (by simpa using hdigit)
    rw [hv d hd] at hword
    cases hword
  obtain ⟨htake, hdrop⟩ := takeWhile_append_stop hbody hstop
  have hmarker : radix.marker.isPrefixOf (radix.marker ++ (c :: body ++ v)) = true :=
    List.isPrefixOf_iff_prefix.mpr (List.prefix_append _ _)
  rw [List.append_assoc, Radix.read?, if_pos hmarker, List.drop_left]
  simp [hc, htake, hdrop]

theorem Radix.isNumeral_of_read? (h : radix.read? text = some (u, v)) :
    radix.isNumeral u = true := by
  unfold Radix.read? at h
  split at h
  · split at h
    · cases h
    · split at h
      · rename_i c body _ hc
        cases h
        exact isNumeral_iff.mpr ⟨c, _, rfl, hc, fun d hd => List.mem_takeWhile_imp hd⟩
      · cases h
  · cases h

theorem Radix.marker_isPrefixOf_marker {other : Radix} (hne : other ≠ radix)
    (hother : other ≠ .decimal) (hradix : radix ≠ .decimal) (tail : List Char) :
    other.marker.isPrefixOf (radix.marker ++ tail) = false := by
  cases other <;> cases radix <;> simp_all [marker, List.isPrefixOf]

/-- Behind the first digit of a decimal number there is no letter, so no marker is there. -/
theorem Radix.marker_isPrefixOf_decimal {other : Radix} (hother : other ≠ .decimal) {c : Char}
    {body : List Char} (hbody : ∀ d ∈ body, Radix.decimal.isBody d = true)
    (hv : ∀ c ∈ v.head?, isAsciiWordChar c = false) :
    other.marker.isPrefixOf (c :: (body ++ v)) = false := by
  have hsecond : ∀ d ∈ (body ++ v).head?, d ≠ 'b' ∧ d ≠ 'o' ∧ d ≠ 'x' := by
    intro d hd
    cases body with
    | nil =>
      have hword := hv d hd
      refine ⟨?_, ?_, ?_⟩ <;> rintro rfl <;> cases hword
    | cons e body =>
      obtain rfl : e = d := by simpa using hd
      have he := hbody e (by simp)
      refine ⟨?_, ?_, ?_⟩ <;> rintro rfl <;> cases he
  cases htail : body ++ v with
  | nil => cases other <;> simp_all [marker, List.isPrefixOf]
  | cons d tail =>
    obtain ⟨hb, ho, hx⟩ := hsecond d (by simp [htail])
    cases other <;> simp_all [marker, List.isPrefixOf, Ne.symm]

theorem Radix.read?_of_other (other : Radix) (hu : radix.isNumeral u = true)
    (hv : ∀ c ∈ v.head?, isAsciiWordChar c = false) (hne : other ≠ radix)
    (hother : other ≠ .decimal) : other.read? (u ++ v) = none := by
  have hmarker : other.marker.isPrefixOf (u ++ v) = false := by
    obtain ⟨c, body, rfl, _, hbody⟩ := isNumeral_iff.mp hu
    by_cases hradix : radix = .decimal
    · subst hradix
      exact marker_isPrefixOf_decimal hother hbody hv
    · rw [List.append_assoc]
      exact marker_isPrefixOf_marker hne hother hradix _
  rw [Radix.read?, if_neg (by simp [hmarker])]

theorem readNumber?_of_isNumeral (hu : isNumeral u = true)
    (hv : ∀ c ∈ v.head?, isAsciiWordChar c = false) : readNumber? (u ++ v) = some (u, v) := by
  obtain ⟨radix, _, hradix⟩ := List.any_eq_true.mp hu
  have hread := Radix.read?_of_isNumeral hradix hv
  have hother (other : Radix) := Radix.read?_of_other other hradix hv
  cases radix with
  | hexadecimal => simp [readNumber?, hread]
  | binary => simp [readNumber?, hread, hother .hexadecimal]
  | octal => simp [readNumber?, hread, hother .hexadecimal, hother .binary]
  | decimal => simp [readNumber?, hread, hother .hexadecimal, hother .binary, hother .octal]

theorem isNumeral_of_readNumber? (h : readNumber? text = some (u, v)) : isNumeral u = true := by
  obtain ⟨radix, hmem, hradix⟩ := List.exists_of_findSome?_eq_some h
  exact List.any_eq_true.mpr ⟨radix, hmem, Radix.isNumeral_of_read? hradix⟩

end Numbers

/-- The lexemes of a pattern, and what may stand behind them. -/
inductive Pattern.Forms : Pattern → List Lexeme → List Char → Prop
  | blank {u v : List Char} (hne : u ≠ []) (hu : ∀ c ∈ u, isBlank c = true)
      (hv : ∀ c ∈ v.head?, isBlank c = false) : Forms .blank [⟨.blank, u⟩] v
  | comment {body v : List Char} (hbody : ∀ c ∈ body, endsLine c = false)
      (hv : ∀ c ∈ v.head?, endsLine c = true) : Forms .comment [⟨.comment, commentMark ++ body⟩] v
  | phrase {p : Phrase} {v : List Char} (hne : p.words.toList ≠ [])
      (hv : p.endsBefore isWordChar v = true) : Forms (.phrase p) [⟨p.kind, p.words.toList⟩] v
  | identifier {u v : List Char} (hu : isIdentifier u = true)
      (hv : ∀ c ∈ v.head?, isAsciiWordChar c = false) : Forms .identifier [⟨.identifier, u⟩] v
  | number {u v : List Char} (hu : isNumeral u = true)
      (hv : ∀ c ∈ v.head?, isAsciiWordChar c = false) : Forms .number [⟨.number, u⟩] v
  | minus {d : Char} {v : List Char} (hd : d.isDigit = true) :
      Forms .minus [⟨.minus, ['-']⟩] (d :: v)
  | char {c : Char} {v : List Char} (hc : c.isAlpha = true) :
      Forms .char [⟨.char, ['\'', c, '\'']⟩] v
  | string (units : List StringUnit) {v : List Char} : Forms .string (stringLexemes units) v

theorem StringUnit.textOf_pieces (ae : Bool) (units : List StringUnit) :
    HslTree.textOf (pieces ae units) = textOf units := by
  induction units generalizing ae with
  | nil => rfl
  | cons unit units ih =>
    cases unit with
    | plain c hc => simp [pieces, text, ih]
    | escape body hbody => cases ae <;> simp [pieces, escapeLexemes, text, ih]

theorem textOf_stringLexemes (units : List StringUnit) :
    textOf (stringLexemes units) = '"' :: (StringUnit.textOf units ++ ['"']) := by
  simp [stringLexemes, StringUnit.lexemes, textOf_mergeLexemes, StringUnit.textOf_pieces]

theorem Pattern.Forms.read? {pattern : Pattern} {ls : List Lexeme} {v : List Char}
    (h : pattern.Forms ls v) :
    pattern.read? .standard (textOf ls ++ v) = some ⟨ls, v, none⟩ := by
  cases h with
  | @blank u _ hne hu hv =>
    cases u with
    | nil => exact absurd rfl hne
    | cons c u =>
      have hc := hu c (by simp)
      have hrest : ∀ d ∈ u, isBlank d = true := fun d hd => hu d (by simp [hd])
      obtain ⟨htake, hdrop⟩ := takeWhile_append_stop hrest hv
      simp [Pattern.read?, readRun?, hc, htake, hdrop, Reading.single]
  | @comment body _ hbody hv =>
    have hmark : commentMark.isPrefixOf (commentMark ++ (body ++ v)) = true :=
      List.isPrefixOf_iff_prefix.mpr (List.prefix_append _ _)
    have hbody' : ∀ c ∈ body, (!endsLine c) = true := by simpa using hbody
    have hv' : ∀ c ∈ v.head?, (!endsLine c) = false := by simpa using hv
    obtain ⟨htake, hdrop⟩ := takeWhile_append_stop hbody' hv'
    simp only [textOf_cons, textOf_nil, List.append_nil, List.append_assoc, Pattern.read?,
      readComment?, hmark, if_true, List.drop_left, htake, hdrop, Reading.single]
  | @phrase p _ hne hv =>
    have hstart : p.words.toList.isPrefixOf (p.words.toList ++ v) = true :=
      List.isPrefixOf_iff_prefix.mpr (List.prefix_append _ _)
    simp only [textOf_cons, textOf_nil, List.append_nil, Pattern.read?, readPhrase?, hstart,
      List.drop_left]
    rw [if_pos ⟨hne, trivial, hv⟩]
    rfl
  | @identifier u _ hu hv =>
    cases u with
    | nil => cases hu
    | cons c u =>
      obtain ⟨hc, hrest⟩ : (c.isAlpha || c == '_') = true ∧ u.all isAsciiWordChar = true :=
        Bool.and_eq_true_iff.mp hu
      obtain ⟨htake, hdrop⟩ := takeWhile_append_stop (List.all_eq_true.mp hrest) hv
      simp only [textOf_cons, textOf_nil, List.append_nil, List.cons_append, Pattern.read?,
        readIdentifier?, hc, if_true, htake, hdrop, Reading.single]
  | @number u _ hu hv =>
    have hnumber := readNumber?_of_isNumeral hu hv
    have hnil : ∀ c ∈ ([] : List Char), isAsciiWordChar c = true := by simp
    have hstop : v.takeWhile isAsciiWordChar = [] := (takeWhile_append_stop hnil hv).1
    simp only [textOf_cons, textOf_nil, List.append_nil, Pattern.read?, readNumeral?, hnumber,
      hstop, Reading.single]
  | minus hd => simp [Pattern.read?, readMinus?, hd, Reading.single]
  | char hc => simp [Pattern.read?, readChar?, hc, Reading.single]
  | string units =>
    have htext : textOf (stringLexemes units) ++ v =
        '"' :: (StringUnit.textOf units ++ '"' :: v) := by
      simp [textOf_stringLexemes]
    rw [htext]
    exact readString?_units units v

theorem head?_dropWhile {α : Type} (p : α → Bool) (xs : List α) :
    ∀ x ∈ (xs.dropWhile p).head?, p x = false := by
  intro x hx
  have hnot := List.head?_dropWhile_not p xs
  rw [Option.mem_def.mp hx] at hnot
  simpa using hnot

theorem Pattern.forms_of_read? {pattern : Pattern} {text : List Char} {r : Reading}
    (h : pattern.read? .standard text = some r) (hfault : r.fault? = none) :
    pattern.Forms r.lexemes r.rest := by
  cases pattern with
  | blank =>
    simp only [Pattern.read?, readRun?] at h
    split at h
    · split at h
      · rename_i c rest hc
        cases h
        refine .blank (List.cons_ne_nil _ _) (fun d hd => ?_) (head?_dropWhile _ _)
        rcases List.mem_cons.mp hd with rfl | hd
        · exact hc
        · exact List.mem_takeWhile_imp hd
      · cases h
    · cases h
  | comment =>
    simp only [Pattern.read?, readComment?] at h
    split at h
    · cases h
      refine .comment (fun d hd => ?_) fun d hd => ?_
      · simpa using List.mem_takeWhile_imp hd
      · simpa using head?_dropWhile _ _ d hd
    · cases h
  | phrase p =>
    simp only [Pattern.read?, readPhrase?] at h
    split at h
    · rename_i hp
      cases h
      exact .phrase hp.1 hp.2.2
    · cases h
  | identifier =>
    simp only [Pattern.read?, readIdentifier?] at h
    split at h
    · split at h
      · rename_i c rest hc
        cases h
        refine .identifier ?_ (head?_dropWhile _ _)
        have hall : (rest.takeWhile isAsciiWordChar).all isAsciiWordChar = true :=
          List.all_eq_true.mpr fun d hd => List.mem_takeWhile_imp hd
        simp [isIdentifier, hc, hall]
      · cases h
    · cases h
  | number =>
    simp only [Pattern.read?, readNumeral?] at h
    split at h
    · rename_i number rest hnumber
      split at h
      · rename_i hstop
        cases h
        refine .number (isNumeral_of_readNumber? hnumber) fun d hd => ?_
        have hhead := head?_dropWhile isAsciiWordChar rest d
        rw [← List.takeWhile_append_dropWhile (p := isAsciiWordChar) (l := rest), hstop] at hd
        exact hhead hd
      · cases h
        cases hfault
    · cases h
  | minus =>
    simp only [Pattern.read?, readMinus?] at h
    split at h
    · split at h
      · rename_i hd
        cases h
        exact .minus hd
      · cases h
    · cases h
  | char =>
    simp only [Pattern.read?, readChar?] at h
    split at h
    · split at h
      · split at h
        · rename_i hc
          cases h
          exact .char hc
        · cases h
          cases hfault
      · cases h
        cases hfault
    · cases h
  | string =>
    obtain ⟨units, hunits, _⟩ := exists_units_of_string h hfault
    rw [hunits]
    exact .string units

end HslTree
