import HslTree.Proofs.LexicalGrammar

/-! The first character of a text decides which patterns can apply: one, or else the phrases and the
identifier. No phrase begins another, so the order of the table matters between these only. -/

namespace HslTree

inductive Family
  | blank
  | comment
  | word
  | number
  | minus
  | char
  | string
deriving DecidableEq

def Pattern.family : Pattern → Family
  | blank => .blank
  | comment => .comment
  | phrase _ | identifier => .word
  | number => .number
  | minus => .minus
  | char => .char
  | string => .string

/-- The patterns that can start with a character. -/
def familyOf? (c : Char) : Option Family :=
  if isBlank c then some .blank
  else if c.isAlpha || c == '_' then some .word
  else if c.isDigit then some .number
  else if c = '<' then some .comment
  else if c = '-' then some .minus
  else if c = '\'' then some .char
  else if c = '"' then some .string
  else none

section Characters

variable {c : Char}

theorem familyOf?_blank (h : isBlank c = true) : familyOf? c = some .blank := by
  simp [familyOf?, h]

theorem isAsciiWordChar_of_starts (h : (c.isAlpha || c == '_') = true) :
    isAsciiWordChar c = true := by
  simp only [isAsciiWordChar, Char.isAlphanum, Bool.or_eq_true] at h ⊢
  tauto

theorem familyOf?_word (h : (c.isAlpha || c == '_') = true) : familyOf? c = some .word := by
  have hblank := isBlank_of_isAsciiWordChar (isAsciiWordChar_of_starts h)
  simp only [familyOf?, hblank, h, Bool.false_eq_true, if_false, if_true]

theorem familyOf?_number (h : c.isDigit = true) : familyOf? c = some .number := by
  have hword : isAsciiWordChar c = true := by simp [isAsciiWordChar, Char.isAlphanum, h]
  have hblank := isBlank_of_isAsciiWordChar hword
  have hletter : (c.isAlpha || c == '_') = false := by
    have hcodes : ∀ n < 128, (Char.ofNat n).isDigit = true →
        ((Char.ofNat n).isAlpha || Char.ofNat n == '_') = false := by decide
    have hc := hcodes c.toNat (toNat_lt_of_isAsciiWordChar hword)
    rw [Char.ofNat_toNat] at hc
    exact hc h
  simp only [familyOf?, hblank, hletter, h, Bool.false_eq_true, if_false, if_true]

end Characters

section Apply

variable {lexicon : Lexicon} {text : List Char} {r : Reading}

theorem Radix.read?_starts {radix : Radix} {u v : List Char} (h : radix.read? text = some (u, v)) :
    ∃ c rest, text = c :: rest ∧ c.isDigit = true := by
  obtain ⟨happend, _⟩ := append_of_read? h
  obtain ⟨c, body, rfl, hc, _⟩ := isNumeral_iff.mp (isNumeral_of_read? h)
  subst happend
  cases radix with
  | decimal => exact ⟨c, body ++ v, rfl, hc⟩
  | binary | octal | hexadecimal => exact ⟨'0', _, rfl, by decide⟩

theorem Phrase.starts_with_letter : ∀ p ∈ Phrase.all,
    (p.words.toList.head?.all fun c => c.isAlpha || c == '_') = true := by decide +kernel

/-- A pattern applies only to a text whose first character is of its family. -/
theorem Pattern.familyOf?_of_read? {pattern : Pattern}
    (hphrase : ∀ p, pattern = .phrase p → p ∈ Phrase.all)
    (h : pattern.read? lexicon text = some r) :
    ∃ c rest, text = c :: rest ∧ familyOf? c = some pattern.family := by
  cases pattern with
  | blank =>
    simp only [Pattern.read?, readRun?] at h
    split at h
    · split at h
      · rename_i c rest hc
        exact ⟨c, rest, rfl, familyOf?_blank hc⟩
      · cases h
    · cases h
  | comment =>
    simp only [Pattern.read?, readComment?] at h
    split at h
    · rename_i hmark
      obtain ⟨body, rfl⟩ := List.isPrefixOf_iff_prefix.mp hmark
      exact ⟨'<', _, rfl, by decide⟩
    · cases h
  | phrase p =>
    simp only [Pattern.read?, readPhrase?] at h
    split at h
    · rename_i hp
      obtain ⟨rest, rfl⟩ := List.isPrefixOf_iff_prefix.mp hp.2.1
      obtain ⟨c, words, hwords⟩ := List.exists_cons_of_ne_nil hp.1
      have hc := Phrase.starts_with_letter p (hphrase p rfl)
      rw [hwords, List.head?_cons, Option.all_some] at hc
      exact ⟨c, words ++ rest, by simp [hwords], familyOf?_word hc⟩
    · cases h
  | identifier =>
    simp only [Pattern.read?, readIdentifier?] at h
    split at h
    · split at h
      · rename_i c rest hc
        exact ⟨c, rest, rfl, familyOf?_word hc⟩
      · cases h
    · cases h
  | number =>
    simp only [Pattern.read?, readNumeral?] at h
    split at h
    · rename_i hnumber
      obtain ⟨radix, _, hradix⟩ := List.exists_of_findSome?_eq_some hnumber
      obtain ⟨c, rest, rfl, hc⟩ := Radix.read?_starts hradix
      exact ⟨c, rest, rfl, familyOf?_number hc⟩
    · cases h
  | minus =>
    simp only [Pattern.read?, readMinus?] at h
    split at h
    · exact ⟨'-', _, rfl, by decide⟩
    · cases h
  | char =>
    simp only [Pattern.read?, readChar?] at h
    split at h
    · exact ⟨'\'', _, rfl, by decide⟩
    · cases h
  | string =>
    simp only [Pattern.read?, readString?] at h
    split at h
    · exact ⟨'"', _, rfl, by decide⟩
    · cases h

theorem Phrase.eq_of_isPrefixOf : ∀ p ∈ Phrase.all, ∀ q ∈ Phrase.all,
    p.words.toList.isPrefixOf q.words.toList = true → p = q := by decide +kernel

theorem Phrase.eq_of_read? {p q : Phrase} (hp : p ∈ Phrase.all) (hq : q ∈ Phrase.all)
    (h : (readPhrase? lexicon.isWord p text).isSome = true)
    (h' : (readPhrase? lexicon.isWord q text).isSome = true) : p = q := by
  have hstart (p : Phrase) (h : (readPhrase? lexicon.isWord p text).isSome = true) :
      p.words.toList <+: text := by
    simp only [readPhrase?] at h
    split at h
    · rename_i hp
      exact List.isPrefixOf_iff_prefix.mp hp.2.1
    · cases h
  rcases List.prefix_or_prefix_of_prefix (hstart p h) (hstart q h') with hpq | hqp
  · exact eq_of_isPrefixOf p hp q hq (List.isPrefixOf_iff_prefix.mpr hpq)
  · exact (eq_of_isPrefixOf q hq p hp (List.isPrefixOf_iff_prefix.mpr hqp)).symm

theorem Pattern.eq_or_word_of_family {p q : Pattern} (h : p.family = q.family) :
    p = q ∨ (p = .identifier ∨ ∃ a, p = .phrase a) ∧ (q = .identifier ∨ ∃ b, q = .phrase b) := by
  cases p <;> cases q <;> simp_all [family]

end Apply

/-- No identifier is tried in front of a phrase. -/
structure Lexicon.Orderly (lexicon : Lexicon) : Prop where
  phrases : ∀ p, .phrase p ∈ lexicon.patterns → p ∈ Phrase.all
  order : ∀ p, ¬ [.identifier, .phrase p].Sublist lexicon.patterns

namespace Lexicon

theorem withScanner_orderly (scanner : Scanner) : (withScanner scanner).Orderly where
  phrases p hp := by simpa [withScanner] using hp
  order p hp := by
    have hmap := hp.map fun q : Pattern => (decide (q = .identifier), q.family)
    have hnot : ¬ [(true, Family.word), (false, .word)].Sublist
        (standard.patterns.map fun q => (decide (q = .identifier), q.family)) := by decide
    exact hnot hmap

variable {lexicon : Lexicon} {text : List Char} {r : Reading}

theorem Orderly.not_mem_after (h : lexicon.Orderly) {before after : List Pattern}
    (hsplit : lexicon.patterns = before ++ .identifier :: after) (p : Phrase) :
    .phrase p ∉ after := by
  intro hp
  refine h.order p ?_
  rw [hsplit]
  exact ((List.singleton_sublist.mpr hp).cons_cons _).trans (List.sublist_append_right before _)

/-- A pattern that applies is the one that reads, but for an identifier where a phrase applies. -/
theorem Orderly.readNext?_of_read? (h : lexicon.Orderly) {pattern : Pattern}
    (hmem : pattern ∈ lexicon.patterns) (hr : pattern.read? lexicon text = some r)
    (hphrase : pattern = .identifier → ∀ p ∈ Phrase.all, readPhrase? lexicon.isWord p text = none) :
    lexicon.readNext? text = some r := by
  have hsome : lexicon.readNext? text ≠ none := by
    intro hnone
    have hpattern := List.findSome?_eq_none_iff.mp hnone pattern hmem
    rw [hr] at hpattern
    cases hpattern
  obtain ⟨r', hr'⟩ := Option.ne_none_iff_exists'.mp hsome
  obtain ⟨before, first, after, hsplit, hfirst, hbefore⟩ := List.findSome?_eq_some_iff.mp hr'
  have hfirstmem : first ∈ lexicon.patterns := by simp [hsplit]
  suffices hsame : first = pattern by
    rw [hr', ← hfirst, hsame, hr]
  have hpattern := pattern.familyOf?_of_read? (fun p hp => h.phrases p (hp ▸ hmem)) hr
  have hother := first.familyOf?_of_read? (fun p hp => h.phrases p (hp ▸ hfirstmem)) hfirst
  obtain ⟨c, rest, rfl, hfamily⟩ := hpattern
  obtain ⟨c', rest', heq, hfamily'⟩ := hother
  cases heq
  have hsamefamily : first.family = pattern.family := by
    rw [hfamily] at hfamily'
    exact (Option.some.inj hfamily').symm
  rcases Pattern.eq_or_word_of_family hsamefamily with hsame | ⟨hword, hword'⟩
  · exact hsame
  · rcases hword with rfl | ⟨p, rfl⟩ <;> rcases hword' with rfl | ⟨q, rfl⟩
    · rfl
    · -- The phrase stands in front of the identifier and would have been found.
      rw [hsplit] at hmem
      rcases List.mem_append.mp hmem with hin | hin
      · rw [hbefore _ hin] at hr
        cases hr
      · exact absurd (by simpa using hin) (h.not_mem_after hsplit q)
    · have hnone := hphrase rfl p (h.phrases p hfirstmem)
      simp only [Pattern.read?] at hfirst
      rw [hnone] at hfirst
      cases hfirst
    · simp only [Pattern.read?] at hfirst hr
      rw [Phrase.eq_of_read? (h.phrases p hfirstmem) (h.phrases q hmem) (by rw [hfirst]; rfl)
        (by rw [hr]; rfl)]

/-- The pattern that reads a text. It is an identifier only where no phrase applies. -/
theorem Orderly.exists_pattern (h : lexicon.Orderly)
    (hall : ∀ p ∈ Phrase.all, .phrase p ∈ lexicon.patterns) (hr : lexicon.readNext? text = some r) :
    ∃ pattern ∈ lexicon.patterns, pattern.read? lexicon text = some r ∧
      (pattern = .identifier → ∀ p ∈ Phrase.all, readPhrase? lexicon.isWord p text = none) := by
  obtain ⟨before, pattern, after, hsplit, hpattern, hbefore⟩ := List.findSome?_eq_some_iff.mp hr
  refine ⟨pattern, by simp [hsplit], hpattern, ?_⟩
  rintro rfl p hp
  have hmem := hall p hp
  rw [hsplit] at hmem
  rcases List.mem_append.mp hmem with hin | hin
  · exact hbefore _ hin
  · exact absurd (by simpa using hin) (h.not_mem_after hsplit p)

theorem phrase_mem_patterns (scanner : Scanner) :
    ∀ p ∈ Phrase.all, .phrase p ∈ (withScanner scanner).patterns := by
  intro p hp
  simp [withScanner, hp]

def NoPhrase (text : List Char) : Prop := ∀ p ∈ Phrase.all, readPhrase? isWordChar p text = none

theorem readNext?_of_forms {pattern : Pattern} (hmem : pattern ∈ standard.patterns)
    {ls : List Lexeme} {v : List Char} (h : pattern.Forms ls v)
    (hphrase : pattern = .identifier → NoPhrase (textOf ls ++ v)) :
    standard.readNext? (textOf ls ++ v) = some ⟨ls, v, none⟩ :=
  (withScanner_orderly longestRun).readNext?_of_read? hmem h.read? hphrase

theorem forms_of_readNext? (h : standard.readNext? text = some r) (hfault : r.fault? = none) :
    ∃ pattern ∈ standard.patterns, pattern.Forms r.lexemes r.rest ∧
      (pattern = .identifier → NoPhrase text) := by
  obtain ⟨pattern, hmem, hread, hphrase⟩ :=
    (withScanner_orderly longestRun).exists_pattern (phrase_mem_patterns longestRun) h
  exact ⟨pattern, hmem, Pattern.forms_of_read? hread hfault, hphrase⟩

end Lexicon

end HslTree
