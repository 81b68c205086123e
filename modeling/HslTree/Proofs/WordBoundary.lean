import HslTree.Proofs.Lossless
import HslTree.Proofs.Words

/-! Where phrases may end. By the letter of the language only ASCII letters, digits and underscores
keep a phrase from ending, while the lexicon heeds all word characters. No token starts with a word
character beyond ASCII, so either way the reading stops in front of it, with the same fault. -/

namespace HslTree

/-- The lexicon whose phrases end in front of everything but ASCII letters, digits and
underscores. -/
def Lexicon.ascii : Lexicon := { Lexicon.standard with isWord := isAsciiWordChar }

theorem Lexicon.ascii_patterns : Lexicon.ascii.patterns = Lexicon.standard.patterns := rfl

/-- Word characters that stand in no identifier. -/
def isForeignWordChar (c : Char) : Bool := isWordChar c && !isAsciiWordChar c

def Phrase.endsInLetter (p : Phrase) : Bool := p.words.toList.getLast?.any Char.isAlphanum

section Characters

variable {c : Char}

theorem isForeignWordChar_iff :
    isForeignWordChar c = true ↔ isWordChar c = true ∧ isAsciiWordChar c = false := by
  simp [isForeignWordChar]

theorem isWordChar_of_not_foreign (h : isForeignWordChar c = false) :
    isWordChar c = isAsciiWordChar c := by
  cases hascii : isAsciiWordChar c with
  | true => exact isWordChar_of_isAsciiWordChar hascii
  | false => simpa [isForeignWordChar, hascii] using h

theorem le_toNat_of_isForeignWordChar (h : isForeignWordChar c = true) : 128 ≤ c.toNat := by
  obtain ⟨hword, hascii⟩ := isForeignWordChar_iff.mp h
  by_contra hlt
  rw [isWordChar_of_ascii (by omega), hascii] at hword
  cases hword

theorem isBlank_of_isForeignWordChar (h : isForeignWordChar c = true) : isBlank c = false := by
  by_contra hblank
  have hword := (isForeignWordChar_iff.mp h).1
  rw [isWordChar_of_isBlank (by simpa using hblank)] at hword
  cases hword

theorem familyOf?_of_isForeignWordChar (h : isForeignWordChar c = true) : familyOf? c = none := by
  have hcode := le_toNat_of_isForeignWordChar h
  have hblank := isBlank_of_isForeignWordChar h
  have hword := (isForeignWordChar_iff.mp h).2
  have hletter : (c.isAlpha || c == '_') = false := by
    by_contra hstarts
    rw [isAsciiWordChar_of_starts (Bool.not_eq_false _ ▸ hstarts)] at hword
    cases hword
  have hdigit : c.isDigit = false := by
    by_contra hdigit
    simp [isAsciiWordChar, Char.isAlphanum, hdigit] at hword
  have hmark (m : Char) (hm : m.toNat < 128) : c ≠ m := by
    rintro rfl
    omega
  simp [familyOf?, hblank, hletter, hdigit, hmark '<' (by decide), hmark '-' (by decide),
    hmark '\'' (by decide), hmark '"' (by decide)]

end Characters

section Phrases

variable {p : Phrase} {isWord : Char → Bool} {c : Char} {rest : List Char}

theorem Phrase.endsBefore_iff : p.endsBefore isWord rest = true ↔
    (p.endsInLetter = true → ∀ c ∈ rest.head?, isWord c = false) := by
  unfold endsBefore endsInLetter
  cases p.words.toList.getLast? with
  | none => simp
  | some last =>
    cases rest with
    | nil => simp
    | cons c rest => cases hlast : last.isAlphanum <;> simp [hlast]

/-- Only a foreign word character tells the two boundaries apart. -/
theorem Phrase.endsBefore_ascii
    (h : p.endsInLetter = true → ∀ c ∈ rest.head?, isForeignWordChar c = false) :
    p.endsBefore isAsciiWordChar rest = p.endsBefore isWordChar rest := by
  rw [Bool.eq_iff_iff, endsBefore_iff, endsBefore_iff]
  refine forall_congr' fun hletter => forall₂_congr fun c hc => ?_
  rw [isWordChar_of_not_foreign (h hletter c hc)]

theorem Phrase.ascii_words : ∀ p ∈ Phrase.all, (p.words.toList.all (·.toNat < 128)) = true := by
  decide +kernel

theorem Phrase.not_mem_words (hp : p ∈ Phrase.all) (hc : isForeignWordChar c = true) :
    c ∉ p.words.toList := by
  intro hmem
  have hlt := List.all_eq_true.mp (ascii_words p hp) c hmem
  have hle := le_toNat_of_isForeignWordChar hc
  simp only [decide_eq_true_eq] at hlt
  omega

theorem Phrase.words_and_blanks : ∀ p ∈ Phrase.all, p.endsInLetter = true →
    (p.words.toList.all fun d => d.isAlpha || isBlank d) = true := by
  decide +kernel

theorem Phrase.eq_of_infix : ∀ p ∈ Phrase.all, p.endsInLetter = true → ∀ q ∈ Phrase.all,
    q.words.toList <:+: p.words.toList → q = p := by
  decide +kernel

end Phrases

section Front

variable {lexicon : Lexicon} {pattern : Pattern} {c d : Char} {u rest : List Char} {r : Reading}

theorem span_in_front {p : Char → Bool} (hc : p c = false) (u rest : List Char) :
    (u ++ c :: rest).takeWhile p = u.takeWhile p ∧
      (u ++ c :: rest).dropWhile p = u.dropWhile p ++ c :: rest := by
  have htake : ∀ d ∈ u.takeWhile p, p d = true := fun d hd => List.mem_takeWhile_imp hd
  have hdrop : ∀ d ∈ (u.dropWhile p ++ c :: rest).head?, p d = false := by
    intro d hd
    cases hrest : u.dropWhile p with
    | nil =>
      rw [hrest] at hd
      obtain rfl : c = d := by simpa using hd
      exact hc
    | cons e tail =>
      have hhead := head?_dropWhile p u e (by rw [hrest]; rfl)
      rw [hrest] at hd
      obtain rfl : e = d := by simpa using hd
      exact hhead
  have hspan := takeWhile_append_stop htake hdrop
  rwa [← List.append_assoc, List.takeWhile_append_dropWhile] at hspan

/-- A pattern that applies to words and blanks reads some of them, and nothing of the foreign word
character behind them. -/
theorem Pattern.read?_in_front (hphrase : ∀ p, pattern = .phrase p → p ∈ Phrase.all)
    (hd : d.isAlpha = true ∨ isBlank d = true) (hc : isForeignWordChar c = true)
    (h : pattern.read? lexicon (d :: u ++ c :: rest) = some r) :
    (∃ v w, d :: u = v ++ w ∧ v ≠ [] ∧ r = .single pattern.kind v (w ++ c :: rest)) ∧
      (pattern = .blank ∨ pattern = .identifier ∨ ∃ p, pattern = .phrase p) := by
  obtain ⟨_, _, htext, hfamily⟩ := pattern.familyOf?_of_read? hphrase h
  obtain ⟨rfl, _⟩ := List.cons.inj htext
  cases pattern with
  | blank =>
    obtain ⟨htake, hdrop⟩ := span_in_front (isBlank_of_isForeignWordChar hc) u rest
    simp only [Pattern.read?, List.cons_append, readRun?, htake, hdrop] at h
    split at h
    · cases h
      exact ⟨⟨d :: u.takeWhile isBlank, u.dropWhile isBlank, by simp, by simp, rfl⟩, by simp⟩
    · cases h
  | identifier =>
    obtain ⟨htake, hdrop⟩ := span_in_front (isForeignWordChar_iff.mp hc).2 u rest
    simp only [Pattern.read?, List.cons_append, readIdentifier?, htake, hdrop] at h
    split at h
    · cases h
      exact ⟨⟨d :: u.takeWhile isAsciiWordChar, u.dropWhile isAsciiWordChar, by simp, by simp,
        rfl⟩, by simp⟩
    · cases h
  | phrase p =>
    simp only [Pattern.read?, readPhrase?] at h
    split at h
    · rename_i hp
      cases h
      have hstart := List.isPrefixOf_iff_prefix.mp hp.2.1
      -- The words of the phrase cannot reach the foreign character.
      obtain ⟨w, hw⟩ : p.words.toList <+: d :: u := by
        refine prefix_of_prefix_append hstart fun e he => ?_
        obtain rfl : c = e := by simpa using he
        exact Phrase.not_mem_words (hphrase p rfl) hc
      refine ⟨⟨p.words.toList, w, hw.symm, hp.1, ?_⟩, by simp⟩
      rw [← hw, List.append_assoc, List.drop_left]
      rfl
    · cases h
  | comment | number | minus | char | string =>
    rcases hd with hd | hd
    · rw [familyOf?_word (by simp [hd])] at hfamily
      cases hfamily
    · rw [familyOf?_blank hd] at hfamily
      cases hfamily

theorem Lexicon.mem_phrases (hpatterns : lexicon.patterns = standard.patterns) {p : Phrase}
    (hp : .phrase p ∈ lexicon.patterns) : p ∈ Phrase.all := by
  rw [hpatterns] at hp
  exact (withScanner_orderly longestRun).phrases p hp

theorem Lexicon.readNext?_of_foreign (hpatterns : lexicon.patterns = standard.patterns)
    (hc : isForeignWordChar c = true) (rest : List Char) :
    lexicon.readNext? (c :: rest) = none := by
  rw [readNext?, List.findSome?_eq_none_iff]
  intro pattern hmem
  by_contra hread
  obtain ⟨r, hr⟩ := Option.ne_none_iff_exists'.mp hread
  obtain ⟨_, _, htext, hfamily⟩ :=
    pattern.familyOf?_of_read? (fun p hp => mem_phrases hpatterns (hp ▸ hmem)) hr
  obtain ⟨rfl, _⟩ := List.cons.inj htext
  rw [familyOf?_of_isForeignWordChar hc] at hfamily
  cases hfamily

/-- Identifiers, blanks, and phrases that are found somewhere in `u` in front of `rest`. -/
def Lexicon.WordOrPhrase (lexicon : Lexicon) (u rest : List Char) (l : Lexeme) : Prop :=
  l.kind = .identifier ∨ l.kind = .blank ∨ ∃ p ∈ Phrase.all, l.kind = p.kind ∧
    ∃ v, v <:+ u ∧ (readPhrase? lexicon.isWord p (v ++ rest)).isSome = true

theorem Lexicon.readNext?_in_front (hpatterns : lexicon.patterns = standard.patterns)
    (hu : ∀ d ∈ u, d.isAlpha = true ∨ isBlank d = true) (hc : isForeignWordChar c = true)
    (h : lexicon.readNext? (u ++ c :: rest) = some r) :
    ∃ l w, u = l.text ++ w ∧ l.text ≠ [] ∧ r = ⟨[l], w ++ c :: rest, none⟩ ∧
      lexicon.WordOrPhrase u (c :: rest) l := by
  cases u with
  | nil =>
    rw [List.nil_append, readNext?_of_foreign hpatterns hc] at h
    cases h
  | cons d u =>
    obtain ⟨pattern, hmem, hread⟩ := List.exists_of_findSome?_eq_some h
    have hphrase (p : Phrase) (hp : pattern = .phrase p) : p ∈ Phrase.all :=
      mem_phrases hpatterns (hp ▸ hmem)
    obtain ⟨⟨v, w, hsplit, hv, rfl⟩, hpattern⟩ :=
      pattern.read?_in_front hphrase (hu d (by simp)) hc hread
    refine ⟨⟨pattern.kind, v⟩, w, hsplit, hv, rfl, ?_⟩
    rcases hpattern with rfl | rfl | ⟨p, rfl⟩
    · exact .inr (.inl rfl)
    · exact .inl rfl
    · refine .inr (.inr ⟨p, hphrase p rfl, rfl, d :: u, List.suffix_refl _, ?_⟩)
      simp only [Pattern.read?] at hread
      rw [hread]
      rfl

theorem Lexicon.readNext?_ne_none (hpatterns : lexicon.patterns = standard.patterns)
    (hd : d.isAlpha = true ∨ isBlank d = true) (text : List Char) :
    lexicon.readNext? (d :: text) ≠ none := by
  intro hnone
  rw [readNext?, hpatterns, List.findSome?_eq_none_iff] at hnone
  rcases hd with hd | hd
  · have hword := hnone .identifier (by decide)
    simp [Pattern.read?, readIdentifier?, hd] at hword
  · have hblank := hnone .blank (by decide)
    simp [Pattern.read?, readRun?, hd] at hblank

theorem Lexicon.read_in_front (hpatterns : lexicon.patterns = standard.patterns)
    (hu : ∀ d ∈ u, d.isAlpha = true ∨ isBlank d = true) (hc : isForeignWordChar c = true)
    (rest : List Char) :
    (lexicon.read (u ++ c :: rest)).rest = c :: rest ∧
      (lexicon.read (u ++ c :: rest)).fault? = some (standard.unrecognised (c :: rest), 0) ∧
      ∀ l ∈ (lexicon.read (u ++ c :: rest)).lexemes, lexicon.WordOrPhrase u (c :: rest) l := by
  have hfault : lexicon.unrecognised (c :: rest) = standard.unrecognised (c :: rest) := by
    rw [unrecognised, unrecognised, hpatterns]
  generalize htext : u ++ c :: rest = text
  fun_induction Lexicon.read lexicon text generalizing u with
  | case1 => simp at htext
  | case2 text hne hnone =>
    subst htext
    cases u with
    | nil => exact ⟨rfl, by rw [← hfault]; rfl, by simp [Reading.failed]⟩
    | cons d u => exact absurd hnone (readNext?_ne_none hpatterns (hu d (by simp)) _)
  | case3 text hne r hr hnofault ih =>
    subst htext
    obtain ⟨l, w, rfl, _, rfl, hl⟩ := readNext?_in_front hpatterns hu hc hr
    obtain ⟨hrest, hfault, hkinds⟩ := ih (fun d hd => hu d (by simp [hd])) rfl
    refine ⟨hrest, hfault, fun m hm => ?_⟩
    rcases List.mem_cons.mp hm with rfl | hm
    · exact hl
    · rcases hkinds m hm with hm | hm | ⟨p, hp, hm, v, hv, hphrase⟩
      · exact .inl hm
      · exact .inr (.inl hm)
      · exact .inr (.inr ⟨p, hp, hm, v, hv.trans (List.suffix_append _ _), hphrase⟩)
  | case4 text hne r hr hfaulty =>
    subst htext
    obtain ⟨_, _, _, _, rfl, _⟩ := readNext?_in_front hpatterns hu hc hr
    exact absurd rfl hfaulty

end Front

/-- Both lexicons read the same lexemes and come to a phrase that runs into a foreign word
character. -/
structure RunsInto (text : List Char) (ls : List Lexeme) (p : Phrase) (c : Char)
    (rest : List Char) : Prop where
  phrase : p ∈ Phrase.all
  letter : p.endsInLetter = true
  foreign : isForeignWordChar c = true
  split : text = textOf ls ++ (p.words.toList ++ c :: rest)
  standard : Lexicon.standard.read text =
    (Lexicon.standard.read (p.words.toList ++ c :: rest)).after ls
  ascii : Lexicon.ascii.read text = (Lexicon.ascii.read (p.words.toList ++ c :: rest)).after ls

section

variable {text : List Char}

theorem readPhrase?_ascii {p : Phrase}
    (h : ∀ c rest, p.endsInLetter = true → isForeignWordChar c = true →
      text ≠ p.words.toList ++ c :: rest) :
    readPhrase? isAsciiWordChar p text = readPhrase? isWordChar p text := by
  simp only [readPhrase?]
  by_cases hstart : p.words.toList <+: text
  · obtain ⟨rest, rfl⟩ := hstart
    rw [List.drop_left, Phrase.endsBefore_ascii]
    intro hletter c hc
    by_contra hforeign
    obtain ⟨tail, rfl⟩ := List.head?_eq_some_iff.mp hc
    exact h c tail hletter (by simpa using hforeign) rfl
  · simp [List.isPrefixOf_iff_prefix, hstart]

namespace Lexicon

/-- The next token is the same for both lexicons, but for a phrase that runs into a foreign word
character. -/
theorem readNext?_ascii (text : List Char) :
    ascii.readNext? text = standard.readNext? text ∨ ∃ p c rest, RunsInto text [] p c rest := by
  by_cases h : ∀ p ∈ Phrase.all, ∀ c rest, p.endsInLetter = true → isForeignWordChar c = true →
      text ≠ p.words.toList ++ c :: rest
  · left
    change List.findSome? (·.read? ascii text) standard.patterns =
      List.findSome? (·.read? standard text) standard.patterns
    rw [← List.head?_filterMap, ← List.head?_filterMap]
    congr 1
    refine List.filterMap_congr fun pattern hpattern => ?_
    cases pattern with
    | phrase p =>
      exact readPhrase?_ascii (h p ((withScanner_orderly longestRun).phrases p hpattern))
    | blank | comment | identifier | number | minus | char | string => rfl
  · right
    push Not at h
    obtain ⟨p, hp, c, rest, hletter, hforeign, rfl⟩ := h
    exact ⟨p, c, rest, hp, hletter, hforeign, rfl, rfl, rfl⟩

theorem read_ascii (text : List Char) :
    ascii.read text = standard.read text ∨ ∃ ls p c rest, RunsInto text ls p c rest := by
  fun_induction Lexicon.read standard text with
  | case1 => exact .inl (read_nil ascii)
  | case2 text hne hnone =>
    rcases readNext?_ascii text with hsame | hruns
    · rw [hnone] at hsame
      exact .inl (read_of_none hne hsame)
    · exact .inr ⟨[], hruns⟩
  | case3 text hne r hr hnone ih =>
    rcases readNext?_ascii text with hsame | hruns
    · rw [hr] at hsame
      have hread := read_of_next hne hsame hnone
      rcases ih with ih | ⟨ls, p, c, rest, hruns⟩
      · exact .inl (by rw [hread, ih])
      · refine .inr ⟨r.lexemes ++ ls, p, c, rest, hruns.phrase, hruns.letter, hruns.foreign, ?_, ?_,
          ?_⟩
        · rw [textOf_append, List.append_assoc, ← hruns.split]
          exact (readNext?_covers standard_kinds hr).text.symm
        · rw [read_of_next hne hr hnone, hruns.standard]
          simp [Reading.after]
        · rw [hread, hruns.ascii]
          simp [Reading.after]
    · exact .inr ⟨[], hruns⟩
  | case4 text hne r hr hfault =>
    rcases readNext?_ascii text with hsame | hruns
    · rw [hr] at hsame
      exact .inl (read_of_fault hne hsame hfault)
    · exact .inr ⟨[], hruns⟩

end Lexicon

variable {lexicon : Lexicon} {ls : List Lexeme} {p : Phrase} {c : Char} {rest : List Char}

theorem RunsInto.words (h : RunsInto text ls p c rest) :
    ∀ d ∈ p.words.toList, d.isAlpha = true ∨ isBlank d = true := by
  simpa using Phrase.words_and_blanks p h.phrase h.letter

theorem Lexicon.kinds_of_patterns (hpatterns : lexicon.patterns = standard.patterns) :
    ∀ q ∈ lexicon.patterns, q.kind ≠ .endOfInput := by
  rw [hpatterns]
  exact standard_kinds

theorem RunsInto.textOf_lexemes (h : RunsInto text ls p c rest)
    (hread : lexicon.read text = (lexicon.read (p.words.toList ++ c :: rest)).after ls)
    (hpatterns : lexicon.patterns = Lexicon.standard.patterns) :
    textOf (lexicon.read text).lexemes = textOf ls ++ p.words.toList := by
  have hrest := (Lexicon.read_in_front hpatterns h.words h.foreign rest).1
  have hcovers := (Lexicon.read_covers (Lexicon.kinds_of_patterns hpatterns) text).text
  rw [hread, Reading.after_rest, hrest, h.split, ← List.append_assoc] at hcovers
  rw [hread]
  exact List.append_cancel_right hcovers

theorem RunsInto.readAt (h : RunsInto text ls p c rest)
    (hread : lexicon.read text = (lexicon.read (p.words.toList ++ c :: rest)).after ls)
    (hpatterns : lexicon.patterns = Lexicon.standard.patterns) (file : String) :
    lexicon.readAt file 0 text =
      ⟨placeAll file 0 (lexicon.read text).lexemes, byteLength (textOf ls ++ p.words.toList),
        some ⟨Lexicon.standard.unrecognised (c :: rest),
          .at file (byteLength (textOf ls ++ p.words.toList))⟩⟩ := by
  have hfault : (lexicon.read text).fault? =
      some (Lexicon.standard.unrecognised (c :: rest), 0) := by
    rw [hread, Reading.after_fault?]
    exact (Lexicon.read_in_front hpatterns h.words h.foreign rest).2.1
  rw [Lexicon.readAt_of_some file 0 hfault, h.textOf_lexemes hread hpatterns, Nat.zero_add,
    Nat.add_zero]

end

/-- Whether or not a phrase may end in front of a foreign word character, a source has the same
tokens, or the same fault at the same place. -/
theorem readTokens_same_at_ascii_boundary (source : String) (label? : Option String) :
    Lexicon.standard.readTokens source label? = Lexicon.ascii.readTokens source label? := by
  rcases Lexicon.read_ascii source.toList with hsame | ⟨ls, p, c, rest, h⟩
  · rw [Lexicon.readTokens, Lexicon.readTokens, Lexicon.readAt, Lexicon.readAt, hsame]
  · rw [Lexicon.readTokens, Lexicon.readTokens, h.readAt h.standard rfl,
      h.readAt h.ascii Lexicon.ascii_patterns]

-- The lexemes in front of the fault do differ.
example : (Lexicon.standard.read "Execute orderé".toList).lexemes.length = 3 ∧
    (Lexicon.ascii.read "Execute orderé".toList).lexemes.length = 1 := by decide +kernel

end HslTree
