import HslTree.Proofs.Gaps

/-! Words: lexemes that are written without a gap between them. Words that can be read in front of a
line feed are read back when each of them is put on a line of its own. -/

namespace HslTree

def AtLineEnd (text : List Char) : Prop := ∀ c ∈ text.head?, c = '\n'

/-- Words that can be read where the line ends behind them. -/
structure Legible (word : List Lexeme) : Prop where
  starts : ∃ c rest, textOf word = c :: rest ∧ isBlank c = false
  reads : ∀ rest, AtLineEnd rest → Lexicon.standard.read (textOf word ++ rest) =
    (Lexicon.standard.read rest).after word

def lineFeed : Lexeme := ⟨.blank, ['\n']⟩

/-- The lexemes of words, each on a line of its own. -/
def onLines (words : List (List Lexeme)) : List Lexeme := [lineFeed].intercalate words

section Lines

variable {w : List Lexeme} {words : List (List Lexeme)}

@[simp]
theorem onLines_singleton (w : List Lexeme) : onLines [w] = w := List.intercalate_singleton

theorem onLines_cons (hwords : words ≠ []) :
    onLines (w :: words) = w ++ lineFeed :: onLines words := by
  rw [onLines, List.intercalate_cons_of_ne_nil hwords, List.append_assoc]
  rfl

theorem onLines_append {words' : List (List Lexeme)} (h : words ≠ []) (h' : words' ≠ []) :
    onLines (words ++ words') = onLines words ++ lineFeed :: onLines words' := by
  induction words with
  | nil => exact absurd rfl h
  | cons w words ih =>
    by_cases hwords : words = []
    · subst hwords
      rw [onLines_singleton]
      exact onLines_cons h'
    · rw [List.cons_append, onLines_cons (by simp [hwords]), onLines_cons hwords, ih hwords]
      simp

theorem textOf_onLines (words : List (List Lexeme)) :
    textOf (onLines words) = ['\n'].intercalate (words.map textOf) := by
  induction words with
  | nil => rfl
  | cons w words ih =>
    by_cases hwords : words = []
    · simp [hwords]
    · rw [onLines_cons hwords, List.map_cons,
        List.intercalate_cons_of_ne_nil (by simpa using hwords), ← ih]
      simp [lineFeed]

theorem Legible.starts_lines (hw : Legible w) (words : List (List Lexeme)) :
    ∃ c rest, textOf (onLines (w :: words)) = c :: rest ∧ isBlank c = false := by
  obtain ⟨c, rest, hc, hblank⟩ := hw.starts
  by_cases hwords : words = []
  · exact ⟨c, rest, by simp [hwords, hc], hblank⟩
  · exact ⟨c, _, by rw [onLines_cons hwords, textOf_append, hc]; rfl, hblank⟩

/-- Legible words are read back from their lines. -/
theorem read_onLines (h : ∀ w ∈ words, Legible w) :
    Lexicon.standard.read (textOf (onLines words)) = ⟨onLines words, [], none⟩ := by
  induction words with
  | nil => exact Lexicon.read_nil _
  | cons w words ih =>
    have hw := h w (by simp)
    have hrest := ih fun v hv => h v (by simp [hv])
    cases words with
    | nil =>
      have hread := hw.reads [] (by simp [AtLineEnd])
      rw [Lexicon.read_nil, List.append_nil] at hread
      rw [onLines_singleton, hread]
      simp [Reading.after]
    | cons v words =>
      obtain ⟨c, rest, hc, hblank⟩ := (h v (by simp)).starts_lines words
      -- The next word does not start with a blank, so the line feed is a token of its own.
      have hfeed : Pattern.Forms .blank [lineFeed] (textOf (onLines (v :: words))) := by
        have hnew : isBlank '\n' = true := by decide
        refine .blank (by simp) (by simpa using hnew) fun d hd => ?_
        rw [hc] at hd
        obtain rfl : c = d := by simpa using hd
        exact hblank
      have hgap := Lexicon.read_of_forms (by decide) hfeed (by simp)
      have hline : AtLineEnd (textOf [lineFeed] ++ textOf (onLines (v :: words))) := by
        simp [AtLineEnd, lineFeed]
      have htext : textOf (onLines (w :: v :: words)) =
          textOf w ++ (textOf [lineFeed] ++ textOf (onLines (v :: words))) := by
        rw [onLines_cons (List.cons_ne_nil v words)]
        simp
      rw [htext, hw.reads _ hline, hgap, hrest, onLines_cons (List.cons_ne_nil v words)]
      simp [Reading.after]

end Lines

section Legible

variable {pattern : Pattern} {ls : List Lexeme} {v : List Char}

theorem Pattern.Forms.starts (h : pattern.Forms ls v) (hmem : pattern ∈ Lexicon.standard.patterns)
    (hblank : pattern ≠ .blank) : ∃ c rest, textOf ls = c :: rest ∧ isBlank c = false := by
  obtain ⟨c, rest, hc⟩ := List.exists_cons_of_ne_nil h.textOf_ne_nil
  have hphrases (p : Phrase) (hp : pattern = .phrase p) : p ∈ Phrase.all :=
    (Lexicon.withScanner_orderly longestRun).phrases p (hp ▸ hmem)
  obtain ⟨d, tail, hd, hfamily⟩ := pattern.familyOf?_of_read? hphrases h.read?
  rw [hc] at hd
  obtain ⟨rfl, _⟩ := List.cons.inj hd
  refine ⟨c, rest, hc, ?_⟩
  by_contra hc'
  rw [familyOf?_blank (by simpa using hc')] at hfamily
  have hfamilies : ∀ p ∈ Lexicon.standard.patterns, p ≠ .blank → p.family ≠ .blank := by decide
  exact hfamilies pattern hmem hblank (Option.some.inj hfamily).symm

theorem legible_of_forms (hmem : pattern ∈ Lexicon.standard.patterns) (hblank : pattern ≠ .blank)
    (h : ∀ v, AtLineEnd v → pattern.Forms ls v)
    (hphrase : pattern = .identifier → ∀ v, AtLineEnd v → Lexicon.NoPhrase (textOf ls ++ v)) :
    Legible ls where
  starts := (h [] (by simp [AtLineEnd])).starts hmem hblank
  reads v hv := Lexicon.read_of_forms hmem (h v hv) fun hword => hphrase hword v hv

theorem AtLineEnd.no_word (h : AtLineEnd v) : ∀ c ∈ v.head?, isAsciiWordChar c = false := by
  intro c hc
  rw [h c hc]
  decide

theorem Phrase.words_ne_nil : ∀ p ∈ Phrase.all, p.words.toList ≠ [] := by decide +kernel

theorem legible_phrase {p : Phrase} (hp : p ∈ Phrase.all) : Legible [⟨p.kind, p.words.toList⟩] := by
  have hmem : .phrase p ∈ Lexicon.standard.patterns := by
    simp [Lexicon.standard, Lexicon.withScanner, hp]
  refine legible_of_forms hmem (by simp)
    (fun v hv => .phrase (Phrase.words_ne_nil p hp) ?_) (by simp)
  refine Phrase.endsBefore_of_stop fun c hc => ?_
  rw [hv c hc]
  exact isWordChar_of_isBlank (by decide)

/-- The identifiers that are phrases. -/
def reservedNames : List (List Char) :=
  ["Hypersignal".toList, "Jamsignal".toList, "Starfield".toList]

theorem Phrase.reserved_of_word : ∀ p ∈ Phrase.all, p.words.toList.all isAsciiWordChar = true →
    p.words.toList ∈ reservedNames := by decide +kernel

theorem Phrase.ends_in_letter : ∀ p ∈ Phrase.all, p.words.toList.all isAsciiWordChar = true →
    p.words.toList.getLast?.any Char.isAlphanum = true := by decide +kernel

theorem Phrase.not_endsBefore {p : Phrase} (h : p.words.toList.getLast?.any Char.isAlphanum = true)
    {c : Char} (hc : isWordChar c = true) (rest : List Char) :
    p.endsBefore isWordChar (c :: rest) = false := by
  unfold endsBefore
  cases hlast : p.words.toList.getLast? with
  | none =>
    rw [hlast] at h
    cases h
  | some last =>
    rw [hlast, Option.any_some] at h
    simp [h, hc]

/-- Words of a phrase that are an identifier go on to the end of the identifier. -/
theorem noPhrase_of_identifier {u : List Char} (hu : isIdentifier u = true)
    (hreserved : u ∉ reservedNames) (hv : AtLineEnd v) : Lexicon.NoPhrase (u ++ v) := by
  intro p hp
  by_contra hfound
  obtain ⟨_, after, hafter, hends⟩ :=
    readPhrase?_isSome_iff.mp (Option.isSome_iff_ne_none.mpr hfound)
  have hwords : ∀ c ∈ u, isAsciiWordChar c = true := by
    cases u with
    | nil => cases hu
    | cons c rest =>
      obtain ⟨hc, hrest⟩ : (c.isAlpha || c == '_') = true ∧ rest.all isAsciiWordChar = true :=
        Bool.and_eq_true_iff.mp hu
      intro d hd
      rcases List.mem_cons.mp hd with rfl | hd
      · exact isAsciiWordChar_of_starts hc
      · exact List.all_eq_true.mp hrest d hd
  obtain ⟨tail, rfl⟩ : p.words.toList <+: u := by
    refine prefix_of_prefix_append ⟨after, hafter.symm⟩ fun c hc => ?_
    rw [hv c hc]
    exact Phrase.no_line_feed p hp
  have hword : p.words.toList.all isAsciiWordChar = true :=
    List.all_eq_true.mpr fun c hc => hwords c (by simp [hc])
  rw [List.append_assoc, List.append_cancel_left_eq] at hafter
  cases tail with
  | nil =>
    rw [List.append_nil] at hreserved
    exact hreserved (Phrase.reserved_of_word p hp hword)
  | cons c tail =>
    have hc := isWordChar_of_isAsciiWordChar (hwords c (by simp))
    rw [← hafter, List.cons_append,
      Phrase.not_endsBefore (Phrase.ends_in_letter p hp hword) hc] at hends
    cases hends

theorem legible_identifier {u : List Char} (hu : isIdentifier u = true)
    (hreserved : u ∉ reservedNames) : Legible [⟨.identifier, u⟩] := by
  refine legible_of_forms (by decide) (by simp) (fun v hv => .identifier hu hv.no_word) ?_
  intro _ v hv
  simpa using noPhrase_of_identifier hu hreserved hv

theorem legible_number {u : List Char} (hu : isNumeral u = true) : Legible [⟨.number, u⟩] :=
  legible_of_forms (by decide) (by simp) (fun _ hv => .number hu hv.no_word) (by simp)

theorem legible_negative {u : List Char} (hu : isNumeral u = true) :
    Legible [⟨.minus, ['-']⟩, ⟨.number, u⟩] where
  starts := ⟨'-', u, by simp, by decide⟩
  reads v hv := by
    obtain ⟨radix, _, hradix⟩ :=
      List.exists_of_findSome?_eq_some (readNumber?_of_isNumeral hu hv.no_word)
    obtain ⟨d, rest, hd, hdigit⟩ := Radix.read?_starts hradix
    have hminus : Pattern.Forms .minus [⟨.minus, ['-']⟩] (u ++ v) := hd ▸ .minus hdigit
    have hread := Lexicon.read_of_forms (by decide) hminus (by simp)
    have hnumber := (legible_number hu).reads v hv
    simp only [textOf_cons, textOf_nil, List.append_nil, List.append_assoc] at hread hnumber ⊢
    rw [hread, hnumber]
    rfl

theorem legible_char {c : Char} (hc : c.isAlpha = true) : Legible [⟨.char, ['\'', c, '\'']⟩] :=
  legible_of_forms (by decide) (by simp) (fun _ _ => .char hc) (by simp)

theorem legible_string (units : List StringUnit) : Legible (stringLexemes units) :=
  legible_of_forms (by decide) (by simp) (fun _ _ => .string units) (by simp)

end Legible

end HslTree
