import HslTree.Proofs.FirstCharacter

/-! No token sees across a gap that starts with a line feed. Texts that are the same up to such a
gap therefore start with the same token, and blanks can be replaced without a change to the
others. -/

namespace HslTree

/-- Two texts that are the same up to where one ends or has a blank, and the other ends or has a
line feed. -/
def SameUpToGap (text text' : List Char) : Prop :=
  ∃ common rest rest', text = common ++ rest ∧ text' = common ++ rest' ∧
    (∀ c ∈ rest.head?, isBlank c = true) ∧ ∀ c ∈ rest'.head?, c = '\n'

namespace SameUpToGap

variable {text text' : List Char}

theorem append_left (h : SameUpToGap text text') (u : List Char) :
    SameUpToGap (u ++ text) (u ++ text') := by
  obtain ⟨common, rest, rest', rfl, rfl, hrest, hrest'⟩ := h
  exact ⟨u ++ common, rest, rest', by simp, by simp, hrest, hrest'⟩

theorem head?_cases (h : SameUpToGap text text') :
    text'.head? = text.head? ∨
      (∀ c ∈ text.head?, isBlank c = true) ∧ ∀ c ∈ text'.head?, c = '\n' := by
  obtain ⟨common, rest, rest', rfl, rfl, hrest, hrest'⟩ := h
  cases common with
  | nil => exact .inr ⟨hrest, hrest'⟩
  | cons c common => exact .inl rfl

theorem next (h : SameUpToGap text text') {P : Char → Prop} (hP : ∀ c ∈ text.head?, P c)
    (hfeed : P '\n') : ∀ c ∈ text'.head?, P c := by
  intro c hc
  rcases h.head?_cases with hsame | ⟨_, hline⟩
  · exact hP c (hsame ▸ hc)
  · rw [hline c hc]
    exact hfeed

end SameUpToGap

theorem prefix_of_prefix_append {α : Type} {xs ys zs : List α} (h : xs <+: ys ++ zs)
    (hzs : ∀ z ∈ zs.head?, z ∉ xs) : xs <+: ys := by
  rcases List.prefix_or_prefix_of_prefix h (List.prefix_append ys zs) with hxs | ⟨tail, rfl⟩
  · exact hxs
  · have htail : tail <+: zs := (List.prefix_append_right_inj ys).mp h
    cases tail with
    | nil => simp
    | cons z tail =>
      obtain ⟨rest, rfl⟩ := htail
      exact absurd (by simp) (hzs z rfl)

section Phrases

variable {p : Phrase} {isWord : Char → Bool} {text text' rest rest' : List Char}

theorem Phrase.endsBefore_of_stop (h : ∀ c ∈ rest.head?, isWord c = false) :
    p.endsBefore isWord rest = true := by
  unfold endsBefore
  split
  · rename_i c tail _
    have hc : isWord c = false := h c rfl
    simp [hc]
  · rfl

theorem Phrase.endsBefore_congr (h : rest'.head? = rest.head?) :
    p.endsBefore isWord rest' = p.endsBefore isWord rest := by
  cases rest with
  | nil => rw [List.head?_eq_none_iff.mp h]
  | cons c rest =>
    obtain ⟨tail, rfl⟩ := List.head?_eq_some_iff.mp h
    unfold endsBefore
    cases p.words.toList.getLast? <;> rfl

theorem readPhrase?_isSome_iff :
    (readPhrase? isWord p text).isSome = true ↔
      p.words.toList ≠ [] ∧ ∃ rest, text = p.words.toList ++ rest ∧
        p.endsBefore isWord rest = true := by
  simp only [readPhrase?]
  constructor
  · intro h
    split at h
    · rename_i hp
      obtain ⟨rest, hrest⟩ := List.isPrefixOf_iff_prefix.mp hp.2.1
      refine ⟨hp.1, rest, hrest.symm, ?_⟩
      have hends := hp.2.2
      rwa [← hrest, List.drop_left] at hends
    · cases h
  · rintro ⟨hne, rest, rfl, hends⟩
    rw [if_pos]
    · rfl
    · refine ⟨hne, List.isPrefixOf_iff_prefix.mpr (List.prefix_append _ _), ?_⟩
      rwa [List.drop_left]

theorem Phrase.no_line_feed : ∀ p ∈ Phrase.all, '\n' ∉ p.words.toList := by decide +kernel

/-- A phrase that is found behind the change of a gap was there before. -/
theorem Lexicon.NoPhrase.of_sameUpToGap (h : SameUpToGap text text')
    (hnone : Lexicon.NoPhrase text) : Lexicon.NoPhrase text' := by
  intro p hp
  by_contra hfound
  obtain ⟨common, rest, rest', rfl, rfl, hrest, hrest'⟩ := h
  obtain ⟨hne, after, hafter, hends⟩ :=
    readPhrase?_isSome_iff.mp (Option.isSome_iff_ne_none.mpr hfound)
  have hfeed := Phrase.no_line_feed p hp
  obtain ⟨between, rfl⟩ : p.words.toList <+: common := by
    refine prefix_of_prefix_append ⟨after, hafter.symm⟩ fun c hc => ?_
    rw [hrest' c hc]
    exact hfeed
  rw [List.append_assoc, List.append_cancel_left_eq] at hafter
  have hends' : p.endsBefore isWordChar (between ++ rest) = true := by
    cases between with
    | nil => exact Phrase.endsBefore_of_stop fun c hc => isWordChar_of_isBlank (hrest c hc)
    | cons c between =>
      rw [← hafter] at hends
      have hhead : (c :: between ++ rest).head? = (c :: between ++ rest').head? := rfl
      rwa [Phrase.endsBefore_congr hhead]
  have hsome := readPhrase?_isSome_iff.mpr ⟨hne, between ++ rest, List.append_assoc _ _ _, hends'⟩
  rw [hnone p hp] at hsome
  cases hsome

end Phrases

theorem SameUpToGap.not_blank {text text' : List Char} (h : SameUpToGap text text')
    (hstop : ∀ c ∈ text.head?, isBlank c = false) (hnil : text = [] → text' = []) :
    ∀ c ∈ text'.head?, isBlank c = false := by
  intro c hc
  rcases h.head?_cases with hsame | ⟨hblank, _⟩
  · exact hstop c (hsame ▸ hc)
  · have htext : text = [] := by
      cases text with
      | nil => rfl
      | cons d rest =>
        have hd := hstop d rfl
        rw [hblank d rfl] at hd
        cases hd
    rw [hnil htext] at hc
    cases hc

theorem Pattern.Forms.blank_cases {ls : List Lexeme} {v : List Char}
    (h : Pattern.Forms .blank ls v) : ∃ u, ls = [⟨.blank, u⟩] ∧ u ≠ [] ∧
      (∀ c ∈ u, isBlank c = true) ∧ ∀ c ∈ v.head?, isBlank c = false := by
  cases h with
  | blank hne hu hv => exact ⟨_, rfl, hne, hu, hv⟩

/-- What stands behind a token may change to a gap, unless the token is blank itself. -/
theorem Pattern.Forms.of_sameUpToGap {pattern : Pattern} {ls : List Lexeme} {v v' : List Char}
    (h : pattern.Forms ls v) (hblank : pattern ≠ .blank) (hgap : SameUpToGap v v') :
    pattern.Forms ls v' := by
  cases h with
  | blank => exact absurd rfl hblank
  | comment hbody hv => exact .comment hbody (hgap.next hv (by decide))
  | phrase hne hv =>
    refine .phrase hne ?_
    rcases hgap.head?_cases with hsame | ⟨_, hfeed⟩
    · rwa [Phrase.endsBefore_congr hsame]
    · refine Phrase.endsBefore_of_stop fun c hc => ?_
      rw [hfeed c hc]
      exact isWordChar_of_isBlank (by decide)
  | identifier hu hv => exact .identifier hu (hgap.next hv (by decide))
  | number hu hv => exact .number hu (hgap.next hv (by decide))
  | @minus d _ hd =>
    rcases hgap.head?_cases with hsame | ⟨hblank, _⟩
    · obtain ⟨tail, rfl⟩ := List.head?_eq_some_iff.mp hsame
      exact .minus hd
    · -- A digit is no blank.
      have hword := isAsciiWordChar_of_isBlank (hblank d rfl)
      simp [isAsciiWordChar, Char.isAlphanum, hd] at hword
  | char hc => exact .char hc
  | string units => exact .string units

theorem Pattern.Forms.kind_ne_blank {pattern : Pattern} {ls : List Lexeme} {v : List Char}
    (h : pattern.Forms ls v) (hmem : pattern ∈ Lexicon.standard.patterns)
    (hblank : pattern ≠ .blank) : ∀ l ∈ ls, l.kind ≠ .blank := by
  have hkinds : ∀ p ∈ Lexicon.standard.patterns, p ≠ .blank → p.kind ≠ .blank := by decide
  cases h with
  | string units =>
    intro l hl
    simp only [stringLexemes, List.mem_cons, List.mem_append, List.not_mem_nil, or_false] at hl
    rcases hl with rfl | hl | rfl
    · simp
    · rcases StringUnit.kind_of_mem_lexemes l hl with hkind | hkind <;> simp [hkind]
    · simp
  | blank => exact absurd rfl hblank
  | phrase => simpa [Pattern.kind] using hkinds _ hmem hblank
  | comment | identifier | number | minus | char => simp

theorem Pattern.Forms.textOf_ne_nil {pattern : Pattern} {ls : List Lexeme} {v : List Char}
    (h : pattern.Forms ls v) : textOf ls ≠ [] := by
  cases h with
  | blank hne | phrase hne => simpa using hne
  | comment =>
    have hmark : commentMark ≠ [] := by decide
    simp [hmark]
  | minus | char => simp
  | identifier hu | number hu =>
    intro hnil
    simp only [textOf_cons, textOf_nil, List.append_nil] at hnil
    rw [hnil] at hu
    cases hu
  | string units => simp [textOf_stringLexemes]

/-- Blanks that start with a line feed. -/
def isGap (text : List Char) : Bool := text.head? == some '\n' && text.all isBlank

/-- Blanks become gaps, and all else stays. -/
inductive Lexeme.Respaces : Lexeme → Lexeme → Prop
  | gap {u v : List Char} (hv : isGap v = true) : Respaces ⟨.blank, u⟩ ⟨.blank, v⟩
  | same {l : Lexeme} (hl : l.kind ≠ .blank) : Respaces l l

theorem Lexeme.Respaces.gap_cases {u : List Char} {ms : List Lexeme}
    (h : List.Forall₂ Respaces [⟨.blank, u⟩] ms) :
    ∃ tail, ms = [⟨.blank, '\n' :: tail⟩] ∧ ∀ c ∈ '\n' :: tail, isBlank c = true := by
  obtain ⟨m, rest, hm, hrest, rfl⟩ := List.forall₂_cons_left_iff.mp h
  obtain rfl := List.forall₂_nil_left_iff.mp hrest
  cases hm with
  | @gap _ v hv =>
    obtain ⟨hfeed, hblank⟩ : v.head? = some '\n' ∧ ∀ c ∈ v, isBlank c = true := by
      simpa [isGap] using hv
    obtain ⟨tail, rfl⟩ := List.head?_eq_some_iff.mp hfeed
    exact ⟨tail, rfl, hblank⟩
  | same hl => exact absurd rfl hl

theorem eq_of_respaces {ls ms : List Lexeme} (h : List.Forall₂ Lexeme.Respaces ls ms)
    (hls : ∀ l ∈ ls, l.kind ≠ .blank) : ms = ls := by
  induction h with
  | nil => rfl
  | cons hl _ ih =>
    have hrest := ih fun l hl => hls l (by simp [hl])
    cases hl with
    | gap => exact absurd rfl (hls _ List.mem_cons_self)
    | same => rw [hrest]

theorem forall₂_append_left {α β : Type} {R : α → β → Prop} {xs ys : List α} {zs : List β}
    (h : List.Forall₂ R (xs ++ ys) zs) :
    ∃ us vs, zs = us ++ vs ∧ List.Forall₂ R xs us ∧ List.Forall₂ R ys vs := by
  induction xs generalizing zs with
  | nil => exact ⟨[], zs, rfl, .nil, h⟩
  | cons x xs ih =>
    obtain ⟨z, zs, hx, hrest, rfl⟩ := List.forall₂_cons_left_iff.mp h
    obtain ⟨us, vs, rfl, hus, hvs⟩ := ih hrest
    exact ⟨z :: us, vs, rfl, .cons hx hus, hvs⟩

namespace Lexicon

theorem read_of_forms {pattern : Pattern} (hmem : pattern ∈ standard.patterns)
    {ls : List Lexeme} {v : List Char} (h : pattern.Forms ls v)
    (hphrase : pattern = .identifier → NoPhrase (textOf ls ++ v)) :
    standard.read (textOf ls ++ v) = (standard.read v).after ls :=
  read_of_next (by simp [h.textOf_ne_nil]) (readNext?_of_forms hmem h hphrase) rfl

theorem read_nil (lexicon : Lexicon) : lexicon.read [] = ⟨[], [], none⟩ := by
  rw [read, if_pos rfl]

/-- Respaced lexemes are read back, token by token. -/
theorem read_respaced {text : List Char} (hfault : (standard.read text).fault? = none)
    {ms : List Lexeme} (h : List.Forall₂ Lexeme.Respaces (standard.read text).lexemes ms) :
    standard.read (textOf ms) = ⟨ms, [], none⟩ ∧ SameUpToGap text (textOf ms) := by
  -- Whether a token ends where it did depends on what follows it, so that the rests agree up to a
  -- gap is carried along.
  fun_induction Lexicon.read standard text generalizing ms with
  | case1 =>
    obtain rfl := List.forall₂_nil_left_iff.mp h
    exact ⟨read_nil standard, [], [], [], rfl, rfl, by simp, by simp⟩
  | case2 => cases hfault
  | case4 text hne r hr hnot => exact absurd hfault hnot
  | case3 text hne r hr hnone ih =>
    obtain ⟨us, vs, rfl, hus, hvs⟩ := forall₂_append_left h
    obtain ⟨hread, hgap⟩ := ih hfault hvs
    obtain ⟨pattern, hmem, hforms, hphrase⟩ := forms_of_readNext? hr hnone
    have htext := (readNext?_covers standard_kinds hr).text
    rw [textOf_append]
    by_cases hblank : pattern = .blank
    · subst hblank
      obtain ⟨u, hu, hne, hblanks, hstop⟩ := hforms.blank_cases
      rw [hu] at hus htext
      obtain ⟨tail, rfl, htail⟩ := Lexeme.Respaces.gap_cases hus
      have hend : r.rest = [] → textOf vs = [] := by
        intro hrest
        rw [hrest, read_nil] at hvs
        rw [List.forall₂_nil_left_iff.mp hvs, textOf_nil]
      have hforms' : Pattern.Forms .blank [⟨.blank, '\n' :: tail⟩] (textOf vs) :=
        .blank (List.cons_ne_nil _ _) htail (hgap.not_blank hstop hend)
      refine ⟨?_, [], text, _, rfl, rfl, ?_, by simp⟩
      · rw [read_of_forms hmem hforms' (by simp), hread]
        simp [Reading.after]
      · obtain ⟨d, u, rfl⟩ := List.exists_cons_of_ne_nil hne
        rw [← htext]
        simpa using hblanks d (by simp)
    · obtain rfl := eq_of_respaces hus (hforms.kind_ne_blank hmem hblank)
      have hforms' := hforms.of_sameUpToGap hblank hgap
      have hgap' := hgap.append_left (textOf r.lexemes)
      rw [htext] at hgap'
      have hphrase' : pattern = .identifier → NoPhrase (textOf r.lexemes ++ textOf vs) :=
        fun hword => (hphrase hword).of_sameUpToGap hgap'
      refine ⟨?_, hgap'⟩
      rw [read_of_forms hmem hforms' hphrase', hread]
      simp [Reading.after]

end Lexicon

end HslTree
