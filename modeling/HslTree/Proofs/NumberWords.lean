import HslTree.Proofs.Reach

/-! Numbers are read as whole words. Where a digit stands, the longest word there is a number or the
fault: no word is split into a number and something behind it. -/

namespace HslTree

/-- The words that are numbers, by the characters they are made of. -/
inductive NumberWord : List Char → Prop
  | hexadecimal {body : List Char} (hne : body ≠ [])
      (hbody : ∀ c ∈ body, c ∈ "0123456789abcdefABCDEF_".toList) : NumberWord ('0' :: 'x' :: body)
  | binary {body : List Char} (hne : body ≠ []) (hbody : ∀ c ∈ body, c ∈ "01_".toList) :
      NumberWord ('0' :: 'b' :: body)
  | octal {body : List Char} (hne : body ≠ []) (hbody : ∀ c ∈ body, c ∈ "01234567_".toList) :
      NumberWord ('0' :: 'o' :: body)
  | decimal {d : Char} {body : List Char} (hd : d.isDigit = true)
      (hbody : ∀ c ∈ body, c ∈ "0123456789_".toList) : NumberWord (d :: body)

section Words

variable {c : Char} {w body : List Char} {radix : Radix}

def Radix.bodyChars : Radix → String
  | binary => "01_"
  | octal => "01234567_"
  | decimal => "0123456789_"
  | hexadecimal => "0123456789abcdefABCDEF_"

theorem Radix.isBody_iff : radix.isBody c = true ↔ c ∈ radix.bodyChars.toList := by
  constructor
  · intro hc
    have hcodes : ∀ n < 128, radix.isBody (Char.ofNat n) = true →
        Char.ofNat n ∈ radix.bodyChars.toList := by cases radix <;> decide +kernel
    have hmem := hcodes c.toNat (toNat_lt_of_isAsciiWordChar (isAsciiWordChar_of_isBody hc))
    rw [Char.ofNat_toNat] at hmem
    exact hmem hc
  · have hchars : radix.bodyChars.toList.all radix.isBody = true := by
      cases radix <;> decide +kernel
    exact List.all_eq_true.mp hchars c

theorem Radix.isNumeral_marker_append (hradix : radix ≠ .decimal) (hne : body ≠ [])
    (hbody : ∀ c ∈ body, c ∈ radix.bodyChars.toList) :
    radix.isNumeral (radix.marker ++ body) = true := by
  obtain ⟨c, body, rfl⟩ := List.exists_cons_of_ne_nil hne
  have hc : radix.isBody c = true := isBody_iff.mpr (hbody c (by simp))
  refine isNumeral_iff.mpr ⟨c, body, rfl, ?_, fun d hd => isBody_iff.mpr (hbody d (by simp [hd]))⟩
  cases radix with
  | decimal => exact absurd rfl hradix
  | binary | octal | hexadecimal => exact hc

theorem isNumeral_of_numberWord (h : NumberWord w) : isNumeral w = true := by
  have hany (radix : Radix) (hradix : radix.isNumeral w = true) : isNumeral w = true :=
    List.any_eq_true.mpr ⟨radix, by cases radix <;> decide, hradix⟩
  cases h with
  | hexadecimal hne hbody =>
    exact hany .hexadecimal (Radix.isNumeral_marker_append (by decide) hne hbody)
  | binary hne hbody => exact hany .binary (Radix.isNumeral_marker_append (by decide) hne hbody)
  | octal hne hbody => exact hany .octal (Radix.isNumeral_marker_append (by decide) hne hbody)
  | @decimal d body hd hbody =>
    refine hany .decimal (Radix.isNumeral_iff.mpr ⟨d, body, rfl, hd, fun c hc => ?_⟩)
    exact Radix.isBody_iff.mpr (hbody c hc)

theorem numberWord_of_isNumeral (h : isNumeral w = true) : NumberWord w := by
  obtain ⟨radix, _, hradix⟩ := List.any_eq_true.mp h
  obtain ⟨c, body, rfl, hc, hbody⟩ := Radix.isNumeral_iff.mp hradix
  have hmem : ∀ d ∈ body, d ∈ radix.bodyChars.toList :=
    fun d hd => Radix.isBody_iff.mp (hbody d hd)
  have hall : ∀ d ∈ c :: body, d ∈ radix.bodyChars.toList := by
    intro d hd
    rcases List.mem_cons.mp hd with rfl | hd
    · exact Radix.isBody_iff.mp (Radix.isBody_of_startsBody hc)
    · exact hmem d hd
  cases radix with
  | hexadecimal => exact .hexadecimal (List.cons_ne_nil _ _) hall
  | binary => exact .binary (List.cons_ne_nil _ _) hall
  | octal => exact .octal (List.cons_ne_nil _ _) hall
  | decimal => exact .decimal hc hmem

theorem numberWord_iff : NumberWord w ↔ isNumeral w = true :=
  ⟨isNumeral_of_numberWord, numberWord_of_isNumeral⟩

instance : DecidablePred NumberWord := fun _ => decidable_of_iff _ numberWord_iff.symm

theorem isAsciiWordChar_of_isNumeral (h : isNumeral w = true) (hc : c ∈ w) :
    isAsciiWordChar c = true := by
  obtain ⟨radix, _, hradix⟩ := List.any_eq_true.mp h
  obtain ⟨d, body, rfl, hd, hbody⟩ := Radix.isNumeral_iff.mp hradix
  have hmarker : radix.marker.all isAsciiWordChar = true := by cases radix <;> decide
  rcases List.mem_append.mp hc with hc | hc
  · exact List.all_eq_true.mp hmarker c hc
  · rcases List.mem_cons.mp hc with rfl | hc
    · exact Radix.isAsciiWordChar_of_isBody (Radix.isBody_of_startsBody hd)
    · exact Radix.isAsciiWordChar_of_isBody (hbody c hc)

end Words

section Reading

variable {d : Char} {text rest : List Char}

theorem exists_readNumber? (hd : d.isDigit = true) (rest : List Char) :
    ∃ number after, readNumber? (d :: rest) = some (number, after) := by
  have hdecimal : (Radix.decimal.read? (d :: rest)).isSome = true := by
    simp [Radix.read?, Radix.marker, Radix.startsBody, hd]
  have hsome : (readNumber? (d :: rest)).isSome = true :=
    List.findSome?_isSome_iff.mpr ⟨.decimal, by simp, hdecimal⟩
  obtain ⟨⟨number, after⟩, hread⟩ := Option.isSome_iff_exists.mp hsome
  exact ⟨number, after, hread⟩

theorem readNumeral?_of_numberWord (h : NumberWord (text.takeWhile isAsciiWordChar)) :
    readNumeral? text = some (.single .number (text.takeWhile isAsciiWordChar)
      (text.dropWhile isAsciiWordChar)) := by
  have hforms : Pattern.number.Forms [⟨.number, text.takeWhile isAsciiWordChar⟩]
      (text.dropWhile isAsciiWordChar) :=
    .number (isNumeral_of_numberWord h) (head?_dropWhile _ _)
  have hread := hforms.read?
  simp only [textOf_cons, textOf_nil, List.append_nil, List.takeWhile_append_dropWhile] at hread
  exact hread

/-- The number that some base finds at a digit is a beginning of the word there. If it is not the
whole word, the word is not a number. -/
theorem readNumeral?_of_not_numberWord (hd : d.isDigit = true)
    (h : ¬ NumberWord ((d :: rest).takeWhile isAsciiWordChar)) :
    readNumeral? (d :: rest) =
      some (.failed (.malformedNumber (String.ofList ((d :: rest).takeWhile isAsciiWordChar))) 0
        (d :: rest)) := by
  obtain ⟨number, after, hread⟩ := exists_readNumber? hd rest
  have hnumeral := isNumeral_of_readNumber? hread
  have hword : (d :: rest).takeWhile isAsciiWordChar =
      number ++ after.takeWhile isAsciiWordChar := by
    rw [← (append_of_readNumber? hread).1, List.takeWhile_append_of_pos]
    exact fun c hc => isAsciiWordChar_of_isNumeral hnumeral hc
  rw [hword] at h ⊢
  cases htail : after.takeWhile isAsciiWordChar with
  | nil =>
    rw [htail, List.append_nil] at h
    exact absurd (numberWord_of_isNumeral hnumeral) h
  | cons c tail => simp only [readNumeral?, hread, htail]

theorem Lexicon.readNext?_digit (scanner : Scanner) (hd : d.isDigit = true) (rest : List Char) :
    (withScanner scanner).readNext? (d :: rest) = readNumeral? (d :: rest) := by
  obtain ⟨number, after, hnumber⟩ := exists_readNumber? hd rest
  have hsome : (readNumeral? (d :: rest)).isSome = true := by
    rw [isSome_readNumeral?, hnumber]
    rfl
  obtain ⟨r, hr⟩ := Option.isSome_iff_exists.mp hsome
  have hread : Pattern.number.read? (withScanner scanner) (d :: rest) = some r := hr
  rw [hr]
  exact (withScanner_orderly scanner).readNext?_of_read? (by simp [withScanner]) hread (by simp)

end Reading

namespace Session

variable {s : Session} {scanner : Scanner} {text rest : List Char} {ls : List Lexeme} {d : Char}

/-- Numbers are all or nothing. Wherever a run stands in front of a digit, the longest word there
becomes one number if it is one, and else the run fails there with that word. -/
theorem numbers_read_as_words (hlexicon : s.lexicon = .withScanner scanner)
    (hunread : s.unread? = some text) (hreach : s.lexicon.Reaches text ls (d :: rest))
    (hd : d.isDigit = true) :
    let w := (d :: rest).takeWhile isAsciiWordChar
    let place := s.cursor + byteLength (textOf ls)
    (NumberWord w → s.lexicon.Reaches text (ls ++ [⟨.number, w⟩])
        ((d :: rest).dropWhile isAsciiWordChar) ∧
      ∃ s' x?, s.run? = some (s', x?) ∧ s.tokens ++ placeAll s.file s.cursor ls ++
        [⟨.number, String.ofList w, .between s.file place (place + byteLength w)⟩] <+: s'.tokens) ∧
    (¬ NumberWord w → ∃ s', s.run? =
        some (s', some ⟨.malformedNumber (String.ofList w), .at s.file place⟩) ∧
      s'.tokens = s.tokens ++ placeAll s.file s.cursor ls ∧ s'.cursor = place) := by
  intro w place
  rw [hlexicon] at hreach ⊢
  constructor
  · intro hw
    have hnext := (Lexicon.readNext?_digit scanner hd rest).trans (readNumeral?_of_numberWord hw)
    have hbehind := hreach.step hnext rfl
    obtain ⟨s', x?, hrun, htokens⟩ := tokens_of_reaches hunread (hlexicon ▸ hbehind)
    refine ⟨hbehind, s', x?, hrun, ?_⟩
    rwa [placeAll_append, ← List.append_assoc] at htokens
  · intro hw
    have hnext :=
      (Lexicon.readNext?_digit scanner hd rest).trans (readNumeral?_of_not_numberWord hd hw)
    rw [← hlexicon] at hreach hnext
    have hrun := run?_of_reached_fault hunread hreach (List.cons_ne_nil d rest) hnext rfl
    rw [Reading.failed, List.append_nil, Nat.add_zero] at hrun
    exact ⟨s.behind ls, hrun, rfl, rfl⟩

theorem octal_word_read_or_refused :
    let before : List Lexeme := [⟨.minus, ['-']⟩]
    let source := "-0o17 a"
    let source' := "-0o18 a"
    (Lexicon.standard.Reaches source.toList before "0o17 a".toList ∧ NumberWord "0o17".toList ∧
      ∃ s' x?, (Session.start .standard source "f").run? = some (s', x?) ∧
        [⟨.minus, "-", .between "f" 0 1⟩, ⟨.number, "0o17", .between "f" 1 5⟩] <+: s'.tokens) ∧
    (Lexicon.standard.Reaches source'.toList before "0o18 a".toList ∧
      ¬ NumberWord "0o18".toList ∧ ∃ s', (Session.start .standard source' "f").run? =
        some (s', some ⟨.malformedNumber "0o18", .at "f" 1⟩) ∧ s'.cursor = 1) := by
  intro before source source'
  have hreach : Lexicon.standard.Reaches source.toList before ('0' :: "o17 a".toList) :=
    .step (r := .single .minus ['-'] "0o17 a".toList) .start (by decide +kernel) rfl
  have hreach' : Lexicon.standard.Reaches source'.toList before ('0' :: "o18 a".toList) :=
    .step (r := .single .minus ['-'] "0o18 a".toList) .start (by decide +kernel) rfl
  have hword : NumberWord "0o17".toList := by decide +kernel
  have hword' : ¬ NumberWord "0o18".toList := by decide +kernel
  have hstandard : Lexicon.standard = .withScanner longestRun := rfl
  have hread := numbers_read_as_words (s := .start .standard source "f") hstandard (by decide)
    hreach rfl
  have hread' := numbers_read_as_words (s := .start .standard source' "f") hstandard (by decide)
    hreach' rfl
  obtain ⟨_, s', x?, hrun, htokens⟩ := hread.1 hword
  obtain ⟨t', hrun', _, hcursor⟩ := hread'.2 hword'
  exact ⟨⟨hreach, hword, s', x?, hrun, htokens⟩, hreach', hword', t', hrun', hcursor⟩

end Session

end HslTree
