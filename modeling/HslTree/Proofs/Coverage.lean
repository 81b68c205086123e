import HslTree.Lexeme.Session

/-! Readings cover their text: the lexemes and the text left make up the text that was read, also
where a fault stopped the reading. -/

namespace HslTree

@[simp]
theorem textOf_nil : textOf [] = [] := rfl

@[simp]
theorem textOf_cons (l : Lexeme) (ls : List Lexeme) : textOf (l :: ls) = l.text ++ textOf ls := rfl

@[simp]
theorem textOf_append (ls ms : List Lexeme) : textOf (ls ++ ms) = textOf ls ++ textOf ms := by
  simp [textOf]

/-- What holds of every reading of a text. A fault lies in the text left, and the last lexeme is
not empty, so it lies behind the start of every lexeme. -/
structure Reading.Covers (r : Reading) (text : List Char) : Prop where
  text : textOf r.lexemes ++ r.rest = text
  solid : ∀ l ∈ r.lexemes.getLast?, l.text ≠ []
  marks : ∀ l ∈ r.lexemes, l.kind ≠ .endOfInput
  reach : ∀ d ∈ r.fault?, d.2 ≤ byteLength r.rest

namespace Reading

theorem covers_single {kind : Kind} {first rest text : List Char} (hkind : kind ≠ .endOfInput)
    (happend : first ++ rest = text) (hfirst : first ≠ []) :
    (single kind first rest).Covers text where
  text := by simpa [single] using happend
  solid := by simpa [single] using hfirst
  marks := by simpa [single] using hkind
  reach := by simp [single]

theorem covers_failed {fault : Fault} {distance : Nat} {text : List Char}
    (hdistance : distance ≤ byteLength text) : (failed fault distance text).Covers text where
  text := rfl
  solid := by simp [failed]
  marks := by simp [failed]
  reach := by simpa [failed] using hdistance

theorem Covers.after {r : Reading} {rest text : List Char} (h : r.Covers rest)
    {lexemes : List Lexeme} (happend : textOf lexemes ++ rest = text)
    (hsolid : ∀ l ∈ lexemes.getLast?, l.text ≠ [])
    (hmarks : ∀ l ∈ lexemes, l.kind ≠ .endOfInput) : (r.after lexemes).Covers text where
  text := by
    change textOf (lexemes ++ r.lexemes) ++ r.rest = text
    rw [textOf_append, List.append_assoc, h.text, happend]
  solid := by
    intro l hl
    change l ∈ (lexemes ++ r.lexemes).getLast? at hl
    cases hlast : r.lexemes.getLast? with
    | none =>
      rw [List.getLast?_append, hlast] at hl
      exact hsolid l hl
    | some m =>
      rw [List.getLast?_append, hlast] at hl
      obtain rfl : m = l := by simpa using hl
      exact h.solid m hlast
  marks := by
    intro l hl
    rcases List.mem_append.mp hl with hl | hl
    · exact hmarks l hl
    · exact h.marks l hl
  reach := h.reach

end Reading

theorem escapeStem_isPrefix (text : List Char) : escapeStem text <+: text := by
  unfold escapeStem
  split
  · rename_i rest
    have h := (List.takeWhile_prefix isHexDigit).trans (List.take_prefix 2 rest)
    exact (List.prefix_cons_inj _).mpr h
  · rename_i rest
    have h := List.takeWhile_prefix (l := rest) isHexDigit
    exact (List.prefix_cons_inj _).mpr ((List.prefix_cons_inj _).mpr h)
  · rename_i rest _
    have h := (List.takeWhile_prefix isHexDigit).trans (List.take_prefix 4 rest)
    exact (List.prefix_cons_inj _).mpr h
  · exact List.nil_prefix

theorem byteLength_le_of_prefix {cs ds : List Char} (h : cs <+: ds) :
    byteLength cs ≤ byteLength ds := by
  obtain ⟨tail, rfl⟩ := h
  rw [byteLength_append]
  omega

theorem readContent_ok {scanner : Scanner} {text run rest : List Char}
    (h : readContent scanner text = .ok (run, rest)) : run ++ rest = text ∧ run ≠ [] := by
  unfold readContent at h
  split at h
  · cases h
  · split at h
    · rename_i hp
      cases h
      exact append_of_plainRun? hp
    · cases h

theorem readContent_error {scanner : Scanner} {text : List Char} {fault : Fault} {distance : Nat}
    (h : readContent scanner text = .error (fault, distance)) : distance ≤ byteLength text := by
  unfold readContent at h
  split at h
  · cases h
    exact Nat.le_refl _
  · split at h
    · cases h
    · cases h
      exact Nat.zero_le _

theorem readEscape_ok {text body rest : List Char} (h : readEscape text = .ok (body, rest)) :
    body ++ rest = text := by
  unfold readEscape at h
  split at h
  · rename_i hp
    cases h
    exact (append_of_readEscape? hp).1
  · split at h <;> cases h

theorem readEscape_error {text : List Char} {fault : Fault} {distance : Nat}
    (h : readEscape text = .error (fault, distance)) : distance ≤ byteLength ('\\' :: text) := by
  have hmark : byteLength ('\\' :: text) = 1 + byteLength text := rfl
  unfold readEscape at h
  split at h
  · cases h
  · split at h
    · cases h
      omega
    · cases h
      have hle := byteLength_le_of_prefix (escapeStem_isPrefix text)
      omega

theorem readStringBody_covers (scanner : Scanner) (afterEscape : Bool) (text : List Char) :
    (readStringBody scanner afterEscape text).Covers text := by
  fun_induction readStringBody scanner afterEscape text with
  | case1 => exact Reading.covers_failed (Nat.zero_le _)
  | case2 => exact Reading.covers_single (by decide) rfl (by decide)
  | case3 afterEscape rest body rest' h ih =>
    have hbody := readEscape_ok h
    refine ih.after ?_ ?_ ?_
    · cases afterEscape <;> simp [escapeLexemes, hbody]
    · cases afterEscape <;> simp [escapeLexemes]
    · cases afterEscape <;> simp [escapeLexemes]
  | case4 afterEscape rest fault distance h => exact Reading.covers_failed (readEscape_error h)
  | case5 afterEscape c rest _ _ run rest' h ih =>
    obtain ⟨happend, hrun⟩ := readContent_ok h
    exact ih.after (by simpa using happend) (by simpa using hrun) (by simp)
  | case6 afterEscape c rest _ _ fault distance h =>
    exact Reading.covers_failed (readContent_error h)

theorem readRun?_covers {kind : Kind} {p : Char → Bool} {text : List Char} {r : Reading}
    (hkind : kind ≠ .endOfInput) (h : readRun? kind p text = some r) : r.Covers text := by
  unfold readRun? at h
  split at h
  · split at h
    · cases h
      exact Reading.covers_single hkind (by simp [List.takeWhile_append_dropWhile]) (by simp)
    · cases h
  · cases h

theorem readComment?_covers {text : List Char} {r : Reading} (h : readComment? text = some r) :
    r.Covers text := by
  unfold readComment? at h
  split at h
  · rename_i hp
    obtain ⟨body, rfl⟩ := List.isPrefixOf_iff_prefix.1 hp
    cases h
    refine Reading.covers_single (by decide) ?_ ?_
    · rw [List.drop_left, List.append_assoc, List.takeWhile_append_dropWhile]
    · have hmark : commentMark ≠ [] := by decide
      simp [hmark]
  · cases h

theorem readPhrase?_covers {isWord : Char → Bool} {phrase : Phrase} {text : List Char}
    {r : Reading} (hkind : phrase.kind ≠ .endOfInput)
    (h : readPhrase? isWord phrase text = some r) : r.Covers text := by
  simp only [readPhrase?] at h
  split at h
  · rename_i hp
    obtain ⟨hne, hstart, _⟩ := hp
    cases h
    obtain ⟨tail, ht⟩ := List.isPrefixOf_iff_prefix.1 hstart
    rw [← ht, List.drop_left]
    exact Reading.covers_single hkind rfl hne
  · cases h

theorem readIdentifier?_covers {text : List Char} {r : Reading}
    (h : readIdentifier? text = some r) : r.Covers text := by
  unfold readIdentifier? at h
  split at h
  · split at h
    · cases h
      exact Reading.covers_single (by decide) (by simp [List.takeWhile_append_dropWhile]) (by simp)
    · cases h
  · cases h

theorem readNumeral?_covers {text : List Char} {r : Reading} (h : readNumeral? text = some r) :
    r.Covers text := by
  unfold readNumeral? at h
  split at h
  · rename_i number rest hn
    obtain ⟨happend, hne⟩ := append_of_readNumber? hn
    split at h
    · cases h
      exact Reading.covers_single (by decide) happend hne
    · cases h
      exact Reading.covers_failed (Nat.zero_le _)
  · cases h

theorem readMinus?_covers {text : List Char} {r : Reading} (h : readMinus? text = some r) :
    r.Covers text := by
  unfold readMinus? at h
  split at h
  · split at h
    · cases h
      exact Reading.covers_single (by decide) rfl (by decide)
    · cases h
  · cases h

/-- The fault of a character literal lies behind its quote, or behind a letter of one byte. -/
theorem charFault_covers (rest : List Char) :
    (readChar?.charFault rest).Covers ('\'' :: rest) := by
  refine Reading.covers_failed ?_
  have hquote : byteLength ('\'' :: rest) = 1 + byteLength rest := rfl
  rw [hquote]
  split
  · rename_i c after
    have hpos := c.utf8Size_pos
    have hcons : byteLength (c :: after) = c.utf8Size + byteLength after := rfl
    split <;> omega
  · omega

theorem readChar?_covers {text : List Char} {r : Reading} (h : readChar? text = some r) :
    r.Covers text := by
  unfold readChar? at h
  split at h
  · split at h
    · split at h
      · cases h
        exact Reading.covers_single (by decide) rfl (by simp)
      · cases h
        exact charFault_covers _
    · cases h
      exact charFault_covers _
  · cases h

theorem readString?_covers {scanner : Scanner} {text : List Char} {r : Reading}
    (h : readString? scanner text = some r) : r.Covers text := by
  unfold readString? at h
  split at h
  · cases h
    exact (readStringBody_covers _ _ _).after rfl (by simp) (by simp)
  · cases h

theorem Pattern.read?_covers {lexicon : Lexicon} {pattern : Pattern} {text : List Char}
    {r : Reading} (hkind : pattern.kind ≠ .endOfInput) (h : pattern.read? lexicon text = some r) :
    r.Covers text := by
  cases pattern with
  | blank => exact readRun?_covers hkind h
  | comment => exact readComment?_covers h
  | phrase p => exact readPhrase?_covers hkind h
  | identifier => exact readIdentifier?_covers h
  | number => exact readNumeral?_covers h
  | minus => exact readMinus?_covers h
  | char => exact readChar?_covers h
  | string => exact readString?_covers h

namespace Lexicon

theorem readNext?_covers {lexicon : Lexicon} (hkinds : ∀ p ∈ lexicon.patterns, p.kind ≠ .endOfInput)
    {text : List Char} {r : Reading} (h : lexicon.readNext? text = some r) : r.Covers text := by
  obtain ⟨pattern, hpattern, hr⟩ := List.exists_of_findSome?_eq_some h
  exact pattern.read?_covers (hkinds pattern hpattern) hr

theorem read_covers {lexicon : Lexicon} (hkinds : ∀ p ∈ lexicon.patterns, p.kind ≠ .endOfInput)
    (text : List Char) : (lexicon.read text).Covers text := by
  fun_induction Lexicon.read lexicon text with
  | case1 => exact ⟨rfl, by simp, by simp, by simp⟩
  | case2 => exact Reading.covers_failed (Nat.zero_le _)
  | case3 text _ reading hr hf ih =>
    have h := readNext?_covers hkinds hr
    exact ih.after h.text h.solid h.marks
  | case4 text _ reading hr hf => exact readNext?_covers hkinds hr

theorem read_rest {lexicon : Lexicon} {text : List Char} (h : (lexicon.read text).fault? = none) :
    (lexicon.read text).rest = [] := by
  fun_induction Lexicon.read lexicon text with
  | case1 => rfl
  | case2 => cases h
  | case3 text _ reading hr hf ih => exact ih h
  | case4 text _ reading hr hf => exact absurd h hf

theorem standard_kinds : ∀ p ∈ standard.patterns, p.kind ≠ .endOfInput := by decide

end Lexicon

end HslTree
