import HslTree.Proofs.StringBodies

/-! Where the faults inside a string or a letter in quotes are reported: at the first character that
no escape and no letter could go on with, or at the end of the source if there is none. -/

namespace HslTree

/-- A stem that begins a valid form, but does not with the next character of the text. -/
structure FirstWrong (Valid : List Char → Prop) (stem after : List Char) : Prop where
  begins : ∃ more, more ≠ [] ∧ Valid (stem ++ more)
  breaks : ∀ c ∈ after.head?, ∀ more, ¬ Valid (stem ++ c :: more)

def IsEscapeSequence (text : List Char) : Prop := ∃ body, IsEscape body ∧ text = '\\' :: body

def IsCharLiteral (text : List Char) : Prop :=
  ∃ c : Char, c.isAlpha = true ∧ text = ['\'', c, '\'']

section Digits

variable {n : Nat} {text digits more : List Char}

theorem digits_stop (h : readHexDigits? n text = none) :
    ∃ digits after, text = digits ++ after ∧ (text.take n).takeWhile isHexDigit = digits ∧
      digits.length < n ∧ (∀ d ∈ digits, isHexDigit d = true) ∧
      ∀ c ∈ after.head?, isHexDigit c = false := by
  induction n generalizing text with
  | zero => simp [readHexDigits?] at h
  | succ n ih =>
    cases text with
    | nil => exact ⟨[], [], rfl, rfl, Nat.succ_pos n, by simp, by simp⟩
    | cons d text =>
      by_cases hd : isHexDigit d = true
      · have hrest : readHexDigits? n text = none := by simpa [readHexDigits?, hd] using h
        obtain ⟨digits, after, rfl, htake, hlength, hdigits, hstop⟩ := ih hrest
        exact ⟨d :: digits, after, rfl, by simp [hd, htake], Nat.succ_lt_succ hlength,
          by simpa [hd] using hdigits, hstop⟩
      · exact ⟨[], d :: text, rfl, by simp [hd], Nat.succ_pos n, by simp, by simpa using hd⟩

theorem isEscape_byte (hlength : digits.length = 2) (hdigits : ∀ d ∈ digits, isHexDigit d = true) :
    IsEscape ('x' :: digits) := by
  obtain ⟨a, b, rfl⟩ := List.length_eq_two.mp hlength
  exact .byte (hdigits a (by simp)) (hdigits b (by simp))

theorem isEscape_code (hlength : digits.length = 4) (hdigits : ∀ d ∈ digits, isHexDigit d = true) :
    IsEscape ('u' :: digits) := by
  obtain ⟨a, ds, rfl⟩ := List.exists_cons_of_length_eq_add_one hlength
  obtain ⟨b, c, d, rfl⟩ := List.length_eq_three.mp (Nat.succ.inj hlength)
  simp only [List.forall_mem_cons] at hdigits
  obtain ⟨ha, hb, hc, hd, _⟩ := hdigits
  exact .code ha hb hc hd

theorem filled_digits (hlength : digits.length < n) (hdigits : ∀ d ∈ digits, isHexDigit d = true) :
    ∃ more, more ≠ [] ∧ (digits ++ more).length = n ∧
      ∀ d ∈ digits ++ more, isHexDigit d = true := by
  refine ⟨.replicate (n - digits.length) '0', ?_, ?_, fun d hd => ?_⟩
  · rw [ne_eq, List.replicate_eq_nil_iff]
    omega
  · rw [List.length_append, List.length_replicate]
    omega
  · rcases List.mem_append.mp hd with hd | hd
    · exact hdigits d hd
    · rw [List.eq_of_mem_replicate hd]
      decide

end Digits

section Stems

variable {text body rest : List Char}

namespace IsEscape

theorem digits_of_byte (h : IsEscape ('x' :: body)) : ∀ d ∈ body, isHexDigit d = true := by
  generalize hescape : 'x' :: body = escape at h
  cases h with
  | byte ha hb =>
    cases hescape
    simp [ha, hb]
  | code | braced => cases hescape
  | single hx =>
    cases hescape
    exact absurd rfl hx

theorem digits_of_code (h : IsEscape ('u' :: body)) (hbrace : body.head? ≠ some '{') :
    ∀ d ∈ body, isHexDigit d = true := by
  generalize hescape : 'u' :: body = escape at h
  cases h with
  | code ha hb hc hd =>
    cases hescape
    simp [ha, hb, hc, hd]
  | byte => cases hescape
  | braced =>
    cases hescape
    exact absurd rfl hbrace
  | single _ hu =>
    cases hescape
    exact absurd rfl hu

theorem digits_of_braced (h : IsEscape ('u' :: '{' :: body)) :
    ∃ digits, digits ≠ [] ∧ (∀ d ∈ digits, isHexDigit d = true) ∧ body = digits ++ ['}'] := by
  generalize hescape : 'u' :: '{' :: body = escape at h
  cases h with
  | braced hne hdigits =>
    cases hescape
    exact ⟨_, hne, hdigits, rfl⟩
  | code ha =>
    cases hescape
    cases ha
  | byte | single => cases hescape

end IsEscape

/-- A mark and digits that are too few, where nothing else can follow on the mark. -/
theorem digitStem_firstWrong {mark : Char} {n : Nat} (h : readHexDigits? n rest = none)
    (hvalid : ∀ digits : List Char, digits.length = n → (∀ d ∈ digits, isHexDigit d = true) →
      IsEscape (mark :: digits))
    (honly : ∀ body : List Char, body.head? = rest.head? → IsEscape (mark :: body) →
      ∀ d ∈ body, isHexDigit d = true) :
    ∃ after, rest = (rest.take n).takeWhile isHexDigit ++ after ∧
      FirstWrong IsEscape (mark :: (rest.take n).takeWhile isHexDigit) after := by
  obtain ⟨digits, after, hrest, htake, hlength, hdigits, hstop⟩ := digits_stop h
  rw [htake]
  obtain ⟨more, hmore, hfull, hhex⟩ := filled_digits hlength hdigits
  refine ⟨after, hrest, ⟨more, hmore, hvalid _ hfull hhex⟩, fun c hc more hescape => ?_⟩
  -- With `c` the digits still start as the text does, so `c` would have to be a digit.
  have hhead : (digits ++ c :: more).head? = rest.head? := by
    rw [hrest]
    cases digits with
    | nil => exact hc.symm
    | cons d digits => rfl
  have hc' : isHexDigit c = true := honly _ hhead hescape c List.mem_append_cons_self
  rw [hstop c hc] at hc'
  cases hc'

theorem bracedStem_firstWrong (h : readBraced? rest = none) :
    FirstWrong IsEscape ('u' :: '{' :: rest.takeWhile isHexDigit)
      (rest.dropWhile isHexDigit) := by
  have hdigits : ∀ d ∈ rest.takeWhile isHexDigit, isHexDigit d = true :=
    fun d hd => List.mem_takeWhile_imp hd
  constructor
  · refine ⟨['0', '}'], List.cons_ne_nil _ _, ?_⟩
    have hzero : ∀ d ∈ rest.takeWhile isHexDigit ++ ['0'], isHexDigit d = true := by
      intro d hd
      rcases List.mem_append.mp hd with hd | hd
      · exact hdigits d hd
      · rw [List.mem_singleton.mp hd]
        decide
    simpa using IsEscape.braced (by simp) hzero
  · intro c hc more hescape
    obtain ⟨digits, hne, hhex, hbody⟩ := hescape.digits_of_braced
    have hbody' : rest.takeWhile isHexDigit ++ c :: more = digits ++ ['}'] := hbody
    -- Both sides are digits up to the first character that is none, so `c` closes the brace.
    have hstop : ∀ e ∈ (c :: more).head?, isHexDigit e = false := by
      simpa using head?_dropWhile isHexDigit rest c hc
    have hclose : ∀ e ∈ ['}'].head?, isHexDigit e = false := by
      have hbrace : isHexDigit '}' = false := by decide
      simpa using hbrace
    obtain ⟨htake, hdrop⟩ := takeWhile_append_stop hdigits hstop
    rw [hbody'] at htake hdrop
    obtain ⟨htake', hdrop'⟩ := takeWhile_append_stop hhex hclose
    rw [htake'] at htake
    rw [hdrop'] at hdrop
    cases hdrop
    obtain ⟨tail, htail⟩ := List.head?_eq_some_iff.mp hc
    cases digits with
    | nil => exact hne rfl
    | cons d digits => simp [readBraced?, ← htake, htail] at h

/-- Where no escape stands, its stem goes up to the first wrong character. -/
theorem escapeStem_firstWrong (hne : text ≠ []) (h : ∀ parts, readEscape? text ≠ some parts) :
    ∃ after, text = escapeStem text ++ after ∧ FirstWrong IsEscape (escapeStem text) after := by
  have hnone : readEscape? text = none := Option.eq_none_iff_forall_ne_some.mpr h
  unfold readEscape? at hnone
  split at hnone
  · rename_i rest
    obtain ⟨after, hrest, hwrong⟩ := digitStem_firstWrong (Option.map_eq_none_iff.mp hnone)
      (fun _ => isEscape_byte) (fun _ _ hescape => hescape.digits_of_byte)
    exact ⟨after, congrArg ('x' :: ·) hrest, hwrong⟩
  · rename_i rest
    have hsplit : rest = rest.takeWhile isHexDigit ++ rest.dropWhile isHexDigit :=
      List.takeWhile_append_dropWhile.symm
    exact ⟨_, congrArg ('u' :: '{' :: ·) hsplit,
      bracedStem_firstWrong (Option.map_eq_none_iff.mp hnone)⟩
  · rename_i rest hbrace
    have hhead : rest.head? ≠ some '{' := by
      intro hhead
      obtain ⟨tail, rfl⟩ := List.head?_eq_some_iff.mp hhead
      exact hbrace tail rfl
    obtain ⟨after, hrest, hwrong⟩ := digitStem_firstWrong (Option.map_eq_none_iff.mp hnone)
      (fun _ => isEscape_code) (fun _ hbody hescape => hescape.digits_of_code (hbody ▸ hhead))
    rw [escapeStem]
    · exact ⟨after, congrArg ('u' :: ·) hrest, hwrong⟩
    · exact hbrace
  · cases hnone
  · exact absurd rfl hne

theorem FirstWrong.escapeSequence {stem after : List Char} (h : FirstWrong IsEscape stem after) :
    FirstWrong IsEscapeSequence ('\\' :: stem) after where
  begins := by
    obtain ⟨more, hmore, hescape⟩ := h.begins
    exact ⟨more, hmore, _, hescape, rfl⟩
  breaks := by
    rintro c hc more ⟨body, hbody, htext⟩
    obtain ⟨_, rfl⟩ := List.cons.inj htext
    exact h.breaks c hc more hbody

end Stems

section Patterns

variable {pattern : Pattern} {text : List Char} {r : Reading} {fault : Fault} {distance : Nat}

/-- The faults that a pattern can have. -/
def Pattern.CanFail : Pattern → Fault → Prop
  | number, .malformedNumber _ => True
  | char, .malformedChar _ => True
  | string, .malformedEscape _ => True
  | string, .unterminatedString => True
  | _, _ => False

theorem Pattern.fault?_of_rest_lt (hstring : pattern ≠ .string)
    (h : pattern.read? .standard text = some r) (hlt : r.rest.length < text.length) :
    r.fault? = none := by
  rcases read?_single hstring h with ⟨first, hr⟩ | ⟨fault, distance, _, hr⟩
  · rw [hr]
    rfl
  · rw [hr] at hlt
    exact absurd hlt (Nat.lt_irrefl _)

theorem firstWrong_quote {rest : List Char} (h : ∀ c ∈ rest.head?, c.isAlpha = false) :
    FirstWrong IsCharLiteral ['\''] rest where
  begins := ⟨['a', '\''], List.cons_ne_nil _ _, 'a', rfl, rfl⟩
  breaks := by
    rintro c hc more ⟨d, hd, htext⟩
    cases htext
    rw [h c hc] at hd
    cases hd

theorem firstWrong_letter {c : Char} (hc : c.isAlpha = true) {rest : List Char}
    (h : rest.head? ≠ some '\'') : FirstWrong IsCharLiteral ['\'', c] rest where
  begins := ⟨['\''], List.cons_ne_nil _ _, c, hc, rfl⟩
  breaks := by
    rintro d hd more ⟨e, _, htext⟩
    cases htext
    exact h hd

theorem readChar?_cases (h : readChar? text = some r) (hfault : r.fault? ≠ none) :
    ∃ rest, text = '\'' :: rest ∧ startsWithLetter text = false ∧ r = readChar?.charFault rest := by
  unfold readChar? at h
  split at h
  · rename_i rest
    refine ⟨rest, rfl, ?_⟩
    split at h
    · split at h
      · cases h
        exact absurd rfl hfault
      · rename_i hc
        exact ⟨by simpa [startsWithLetter] using hc, (Option.some.inj h).symm⟩
    · rename_i hnone
      refine ⟨?_, (Option.some.inj h).symm⟩
      unfold startsWithLetter
      split
      · rename_i c after heq
        cases heq
        exact absurd rfl (hnone c after)
      · rfl
  · cases h

theorem readChar?_fault (h : readChar? text = some r) (hfault : r.fault? = some (fault, distance)) :
    ∃ wrong stem after, fault = .malformedChar wrong ∧ r.lexemes = [] ∧ text = stem ++ after ∧
      stem.head? = some '\'' ∧ FirstWrong IsCharLiteral stem after ∧
      distance = byteLength stem := by
  obtain ⟨rest, rfl, hletter, rfl⟩ := readChar?_cases h (by simp [hfault])
  rw [charFault_eq] at hfault ⊢
  obtain ⟨rfl, rfl⟩ := Prod.mk.inj (Option.some.inj hfault)
  cases rest with
  | nil => exact ⟨_, ['\''], [], rfl, rfl, rfl, rfl, firstWrong_quote (by simp), rfl⟩
  | cons c rest =>
    by_cases hc : c.isAlpha = true
    · have hrest : rest.head? ≠ some '\'' := by
        intro hhead
        obtain ⟨tail, rfl⟩ := List.head?_eq_some_iff.mp hhead
        rw [startsWithLetter, hc] at hletter
        cases hletter
      refine ⟨_, ['\'', c], rest, rfl, rfl, rfl, rfl, firstWrong_letter hc hrest, ?_⟩
      have hquote : '\''.utf8Size = 1 := rfl
      simp [byteLength, hc, hquote, utf8Size_of_isAlpha hc]
    · have hrest : ∀ d ∈ (c :: rest).head?, d.isAlpha = false := by simpa using hc
      refine ⟨_, ['\''], c :: rest, rfl, rfl, rfl, rfl, firstWrong_quote hrest, ?_⟩
      rw [List.head?_cons, Option.any_some, if_neg hc]
      rfl

theorem readString?_fault (h : readString? longestRun text = some r)
    (hfault : r.fault? = some (fault, distance)) :
    fault = .unterminatedString ∨ ∃ units stem after,
      fault = .malformedEscape (String.ofList (stem ++ after.take 1)) ∧
      text = '"' :: (StringUnit.textOf units ++ (stem ++ after)) ∧
      textOf r.lexemes = '"' :: StringUnit.textOf units ∧ stem.head? = some '\\' ∧
      FirstWrong IsEscapeSequence stem after ∧ distance = byteLength stem := by
  have hcovers := (readString?_covers h).text
  unfold readString? at h
  split at h
  · rename_i body
    obtain rfl := Option.some.inj h
    obtain ⟨units, ending, hunits, hends⟩ := readStringBody_ends false body
    cases hends.after [⟨.quote, ['"']⟩] with
    | quote hnone =>
      rw [hnone] at hfault
      cases hfault
    | missing _ hmissing =>
      rw [hmissing] at hfault
      cases hfault
      exact .inl rfl
    | @wrong behind hne hrest hwrong =>
      rw [hwrong] at hfault
      cases hfault
      obtain ⟨after, hbehind, hfirst⟩ := escapeStem_firstWrong hne hunits.no_escape
      have hdrop : (escapeStem behind ++ after).drop (escapeStem behind).length = after :=
        List.drop_left
      rw [← hbehind] at hdrop
      refine .inr ⟨units, '\\' :: escapeStem behind, after, by rw [hdrop], ?_, ?_, rfl,
        hfirst.escapeSequence, rfl⟩
      · rw [hunits.split, List.cons_append, ← hbehind]
      · have hbody : '"' :: body = '"' :: StringUnit.textOf units ++ '\\' :: behind :=
          congrArg ('"' :: ·) hunits.split
        rw [hrest, hbody] at hcovers
        exact List.append_cancel_right hcovers
  · cases h

theorem Pattern.canFail_of_read? (h : pattern.read? .standard text = some r)
    (hfault : r.fault? = some (fault, distance)) : pattern.CanFail fault := by
  have hnever (hstring : pattern ≠ .string) (hlt : r.rest.length < text.length) :
      pattern.CanFail fault := by
    rw [fault?_of_rest_lt hstring h hlt] at hfault
    cases hfault
  cases pattern with
  | blank => exact hnever (by simp) (readRun?_rest_lt h)
  | comment => exact hnever (by simp) (readComment?_rest_lt h)
  | phrase p => exact hnever (by simp) (readPhrase?_rest_lt h)
  | identifier => exact hnever (by simp) (readIdentifier?_rest_lt h)
  | minus => exact hnever (by simp) (readMinus?_rest_lt h)
  | number =>
    change readNumeral? text = some r at h
    unfold readNumeral? at h
    split at h
    · split at h
      · cases h
        cases hfault
      · cases h
        cases hfault
        trivial
    · cases h
  | char =>
    obtain ⟨wrong, _, _, rfl, _⟩ := readChar?_fault h hfault
    trivial
  | string =>
    obtain rfl | ⟨_, _, _, rfl, _⟩ := readString?_fault h hfault
    · trivial
    · trivial

theorem Pattern.eq_char_of_canFail {wrong : String} (h : pattern.CanFail (.malformedChar wrong)) :
    pattern = .char := by
  cases pattern with
  | char => rfl
  | _ => exact h.elim

theorem Pattern.eq_string_of_canFail {wrong : String}
    (h : pattern.CanFail (.malformedEscape wrong)) : pattern = .string := by
  cases pattern with
  | string => rfl
  | _ => exact h.elim

end Patterns

namespace Lexicon

variable {source : String} {label? : Option String} {d : Diagnostic} {text : List Char}

theorem read_of_readTokens_error (h : standard.readTokens source label? = .error d) :
    ∃ distance, (standard.read source.toList).fault? = some (d.fault, distance) ∧
      d.position = .at (label?.getD defaultLabel)
        (byteLength (textOf (standard.read source.toList).lexemes) + distance) := by
  cases hfault : (standard.read source.toList).fault? with
  | none =>
    rw [readTokens, readAt_of_none _ _ hfault] at h
    cases h
  | some x =>
    obtain ⟨fault, distance⟩ := x
    rw [readTokens, readAt_of_some _ _ hfault, Nat.zero_add] at h
    cases h
    exact ⟨distance, rfl, rfl⟩

theorem exists_reached_pattern {fault : Fault} {distance : Nat}
    (h : (standard.read text).fault? = some (fault, distance))
    (hpattern : ∀ found kinds, fault ≠ .unrecognised found kinds) :
    ∃ (ls : List Lexeme) (rest : List Char) (pattern : Pattern) (r : Reading),
      standard.Reaches text ls rest ∧ pattern.read? standard rest = some r ∧
      r.fault? = some (fault, distance) ∧ (standard.read text).lexemes = ls ++ r.lexemes := by
  have hfault : (standard.read text).fault? ≠ none := by simp [h]
  obtain ⟨ls, rest, hreach, hread | ⟨r, hr, hread⟩⟩ := exists_reached_fault hfault
  · rw [hread] at h
    cases h
    exact absurd rfl (hpattern _ _)
  · obtain ⟨pattern, _, hpattern⟩ := List.exists_of_findSome?_eq_some hr
    rw [hread] at h ⊢
    exact ⟨ls, rest, pattern, r, hreach, hpattern, h, rfl⟩

end Lexicon

/-- Faults inside a string or a letter in quotes are reported at the first wrong character. What
stands in front of it from the backslash or the quote on begins an escape or a letter in quotes, but
does not with the character, unless the source ends there. The escape is reported up to that
character. -/
theorem readTokens_blames_first_wrong_character {source : String} {label? : Option String}
    {d : Diagnostic} (hsize : byteLength source.toList < 2 ^ 32)
    (h : Lexicon.standard.readTokens source label? = .error d) :
    (∀ wrong, d.fault = .malformedEscape wrong → ∃ ls units stem after,
      Lexicon.standard.Reaches source.toList ls
        ('"' :: (StringUnit.textOf units ++ (stem ++ after))) ∧
      stem.head? = some '\\' ∧ FirstWrong IsEscapeSequence stem after ∧
      splitAtByte? d.position.offset.toNat source.toList =
        some (textOf ls ++ '"' :: (StringUnit.textOf units ++ stem), after) ∧
      wrong = String.ofList (stem ++ after.take 1)) ∧
    ∀ wrong, d.fault = .malformedChar wrong → ∃ ls stem after,
      Lexicon.standard.Reaches source.toList ls (stem ++ after) ∧
      stem.head? = some '\'' ∧ FirstWrong IsCharLiteral stem after ∧
      splitAtByte? d.position.offset.toNat source.toList = some (textOf ls ++ stem, after) := by
  obtain ⟨distance, hfault, hposition⟩ := Lexicon.read_of_readTokens_error h
  have hsplit {before after : List Char} (htext : source.toList = before ++ after)
      (hlength : byteLength (textOf (Lexicon.standard.read source.toList).lexemes) + distance =
        byteLength before) :
      splitAtByte? d.position.offset.toNat source.toList = some (before, after) := by
    have hle : byteLength source.toList = byteLength before + byteLength after := by
      rw [htext, byteLength_append]
    rw [hposition, hlength, Position.toNat_at _ (by omega), htext]
    exact splitAtByte?_byteLength before after
  constructor
  · intro wrong hwrong
    rw [hwrong] at hfault
    obtain ⟨ls, rest, pattern, r, hreach, hread, hr, hlexemes⟩ :=
      Lexicon.exists_reached_pattern hfault (by simp)
    obtain rfl := Pattern.eq_string_of_canFail (Pattern.canFail_of_read? hread hr)
    obtain hmissing | ⟨units, stem, after, hescape, rfl, hr', hhead, hfirst, rfl⟩ :=
      readString?_fault hread hr
    · cases hmissing
    · cases hescape
      refine ⟨ls, units, stem, after, hreach, hhead, hfirst, hsplit ?_ ?_, rfl⟩
      · rw [← hreach.text_eq]
        simp
      · rw [hlexemes, textOf_append, hr', ← byteLength_append, List.append_assoc]
        rfl
  · intro wrong hwrong
    rw [hwrong] at hfault
    obtain ⟨ls, rest, pattern, r, hreach, hread, hr, hlexemes⟩ :=
      Lexicon.exists_reached_pattern hfault (by simp)
    obtain rfl := Pattern.eq_char_of_canFail (Pattern.canFail_of_read? hread hr)
    obtain ⟨_, stem, after, _, hr', rfl, hhead, hfirst, rfl⟩ := readChar?_fault hread hr
    refine ⟨ls, stem, after, hreach, hhead, hfirst, hsplit ?_ ?_⟩
    · rw [← hreach.text_eq, List.append_assoc]
    · rw [hlexemes, hr', List.append_nil, byteLength_append]

theorem short_code_blamed :
    let source := "f \"é\\u12G\""
    let d : Diagnostic := ⟨.malformedEscape "\\u12G", .at defaultLabel 9⟩
    let source' := "f 'a1"
    let d' : Diagnostic := ⟨.malformedChar "'a1", .at defaultLabel 4⟩
    (byteLength source.toList < 2 ^ 32 ∧ Lexicon.standard.readTokens source none = .error d ∧
      ∃ stem after, FirstWrong IsEscapeSequence stem after ∧
        (splitAtByte? 9 source.toList).map (·.2) = some after ∧
        "\\u12G" = String.ofList (stem ++ after.take 1)) ∧
    (byteLength source'.toList < 2 ^ 32 ∧ Lexicon.standard.readTokens source' none = .error d' ∧
      ∃ stem after, FirstWrong IsCharLiteral stem after ∧
        (splitAtByte? 4 source'.toList).map (·.2) = some after) := by
  intro source d source' d'
  have hsize : byteLength source.toList < 2 ^ 32 := by decide +kernel
  have htokens : Lexicon.standard.readTokens source none = .error d := by decide +kernel
  have hsize' : byteLength source'.toList < 2 ^ 32 := by decide +kernel
  have htokens' : Lexicon.standard.readTokens source' none = .error d' := by decide +kernel
  constructor
  · obtain ⟨_, _, stem, after, _, _, hfirst, hsplit, hwrong⟩ :=
      (readTokens_blames_first_wrong_character hsize htokens).1 _ rfl
    have hnine : d.position.offset.toNat = 9 := rfl
    rw [hnine] at hsplit
    exact ⟨hsize, htokens, stem, after, hfirst, by rw [hsplit]; rfl, hwrong⟩
  · obtain ⟨_, stem, after, _, _, hfirst, hsplit⟩ :=
      (readTokens_blames_first_wrong_character hsize' htokens').2 _ rfl
    have hfour : d'.position.offset.toNat = 4 := rfl
    rw [hfour] at hsplit
    exact ⟨hsize', htokens', stem, after, hfirst, by rw [hsplit]; rfl⟩

end HslTree
