import HslTree.Proofs.Words

/-! Lexemes that are read back from their text, said token by token. They can be joined at a line
feed, and cut in front of a keyword and behind the end of a definition. -/

namespace HslTree

open Lexicon (NoPhrase)

/-- Lexemes one behind the other, each with the form of a pattern in front of the text of the
rest. -/
inductive Lexed : List Lexeme → Prop
  | nil : Lexed []
  | append {pattern : Pattern} {ls rest : List Lexeme} (hmem : pattern ∈ Lexicon.standard.patterns)
      (hforms : pattern.Forms ls (textOf rest))
      (hphrase : pattern = .identifier → NoPhrase (textOf ls ++ textOf rest)) (hrest : Lexed rest) :
      Lexed (ls ++ rest)

theorem Lexed.read {ls : List Lexeme} (h : Lexed ls) :
    Lexicon.standard.read (textOf ls) = ⟨ls, [], none⟩ := by
  induction h with
  | nil => exact Lexicon.read_nil _
  | append hmem hforms hphrase _ ih =>
    rw [textOf_append, Lexicon.read_of_forms hmem hforms hphrase, ih, Reading.after]

theorem Lexicon.lexed_of_read {text : List Char} (h : (standard.read text).fault? = none) :
    Lexed (standard.read text).lexemes := by
  fun_induction Lexicon.read standard text with
  | case1 => exact .nil
  | case2 => cases h
  | case4 text hne r hr hfault => exact absurd h hfault
  | case3 text hne r hr hnone ih =>
    obtain ⟨pattern, hmem, hforms, hphrase⟩ := forms_of_readNext? hr hnone
    have htext := (readNext?_covers standard_kinds hr).text
    have hrest : textOf (standard.read r.rest).lexemes = r.rest := read_ok h
    refine .append hmem (by rwa [hrest]) (fun hword => ?_) (ih h)
    rw [hrest, htext]
    exact hphrase hword

theorem Lexicon.read_eq_iff {text : List Char} {ls : List Lexeme} :
    standard.read text = ⟨ls, [], none⟩ ↔ Lexed ls ∧ textOf ls = text := by
  constructor
  · intro h
    have hfault : (standard.read text).fault? = none := by rw [h]
    have hlexed := lexed_of_read hfault
    have htext := read_ok hfault
    rw [h] at hlexed htext
    exact ⟨hlexed, htext⟩
  · rintro ⟨h, rfl⟩
    exact h.read

theorem Lexed.eq_nil {ls : List Lexeme} (h : Lexed ls) (htext : textOf ls = []) : ls = [] := by
  cases h with
  | nil => rfl
  | append _ hforms =>
    rw [textOf_append, List.append_eq_nil_iff] at htext
    exact absurd htext.1 hforms.textOf_ne_nil

section Join

/-- The lexemes of a text of blanks, which may be empty. -/
def blanks : List Char → List Lexeme
  | [] => []
  | c :: cs => [⟨.blank, c :: cs⟩]

@[simp]
theorem textOf_blanks (u : List Char) : textOf (blanks u) = u := by
  cases u <;> simp [blanks]

theorem blanks_of_ne_nil {u : List Char} (hu : u ≠ []) : blanks u = [⟨.blank, u⟩] := by
  cases u with
  | nil => exact absurd rfl hu
  | cons c cs => rfl

theorem Lexed.blanks_append {u : List Char} (hu : ∀ c ∈ u, isBlank c = true) {rest : List Lexeme}
    (hstop : ∀ c ∈ (textOf rest).head?, isBlank c = false) (hrest : Lexed rest) :
    Lexed (blanks u ++ rest) := by
  by_cases hne : u = []
  · subst hne
    exact hrest
  · rw [blanks_of_ne_nil hne]
    exact .append (by decide) (.blank hne hu hstop) (by simp) hrest

theorem Lexed.exists_blanks {ls : List Lexeme} (h : Lexed ls) :
    ∃ y rest, ls = blanks y ++ rest ∧ Lexed rest ∧ (∀ c ∈ y, isBlank c = true) ∧
      ∀ c ∈ (textOf rest).head?, isBlank c = false := by
  cases h with
  | nil => exact ⟨[], [], rfl, .nil, by simp, by simp⟩
  | @append pattern ls rest hmem hforms hphrase hrest =>
    by_cases hblank : pattern = .blank
    · subst hblank
      obtain ⟨u, rfl, hne, hu, hstop⟩ := hforms.blank_cases
      exact ⟨u, rest, by rw [blanks_of_ne_nil hne], hrest, hu, hstop⟩
    · obtain ⟨c, tail, hc, hnot⟩ := hforms.starts hmem hblank
      refine ⟨[], ls ++ rest, rfl, .append hmem hforms hphrase hrest, by simp, ?_⟩
      rw [textOf_append, hc]
      simpa using hnot

/-- The blanks on both sides of a line feed become one token with it. No other token sees across
the line feed. -/
theorem Lexed.join_line {ls ms : List Lexeme} (h : Lexed ls) (h' : Lexed ms) :
    ∃ ls' x y ms', ls = ls' ++ blanks x ∧ ms = blanks y ++ ms' ∧
      Lexed (ls' ++ (blanks (x ++ '\n' :: y) ++ ms')) := by
  obtain ⟨y, ms', rfl, hms', hy, hstop⟩ := h'.exists_blanks
  have hfeed : isBlank '\n' = true := by decide
  have hseam (x : List Char) (hx : ∀ c ∈ x, isBlank c = true) :
      Lexed (blanks (x ++ '\n' :: y) ++ ms') := by
    refine .blanks_append (fun c hc => ?_) hstop hms'
    rcases List.mem_append.mp hc with hc | hc
    · exact hx c hc
    · rcases List.mem_cons.mp hc with rfl | hc
      · exact hfeed
      · exact hy c hc
  suffices hjoin : ∃ ls' x, ls = ls' ++ blanks x ∧
      Lexed (ls' ++ (blanks (x ++ '\n' :: y) ++ ms')) by
    obtain ⟨ls', x, hls, hjoined⟩ := hjoin
    exact ⟨ls', x, y, ms', hls, rfl, hjoined⟩
  induction h with
  | nil => exact ⟨[], [], rfl, hseam [] (by simp)⟩
  | @append pattern ls rest hmem hforms hphrase hrest ih =>
    by_cases hlast : pattern = .blank ∧ rest = []
    · obtain ⟨rfl, rfl⟩ := hlast
      obtain ⟨u, rfl, hne, hu, _⟩ := hforms.blank_cases
      exact ⟨[], u, by rw [blanks_of_ne_nil hne]; rfl, hseam u hu⟩
    · obtain ⟨rest', x, rfl, hjoined⟩ := ih
      refine ⟨ls ++ rest', x, by simp, ?_⟩
      rw [List.append_assoc]
      have hgap : SameUpToGap (textOf (rest' ++ blanks x))
          (textOf (rest' ++ (blanks (x ++ '\n' :: y) ++ ms'))) :=
        ⟨textOf rest' ++ x, [], '\n' :: (y ++ textOf ms'), by simp, by simp, by simp, by simp⟩
      refine .append hmem ?_ (fun hword => ?_) hjoined
      · by_cases hblank : pattern = .blank
        · subst hblank
          obtain ⟨u, rfl, hne, hu, hend⟩ := hforms.blank_cases
          -- Something follows the blank, as the last token is another one.
          refine .blank hne hu (hgap.not_blank hend fun hnil => ?_)
          exact absurd ⟨rfl, hrest.eq_nil hnil⟩ hlast
        · exact hforms.of_sameUpToGap hblank hgap
      · exact (hphrase hword).of_sameUpToGap (hgap.append_left _)

end Join

section Cut

variable {pattern : Pattern} {ls : List Lexeme} {l : Lexeme} {v v' : List Char}

/-- Of what stands behind a token, the first character alone matters to it. -/
theorem Pattern.Forms.of_head (h : pattern.Forms ls v) (hhead : v'.head? = v.head?) :
    pattern.Forms ls v' := by
  cases h with
  | blank hne hu hv => exact .blank hne hu (hhead ▸ hv)
  | comment hbody hv => exact .comment hbody (hhead ▸ hv)
  | phrase hne hv => exact .phrase hne (by rwa [Phrase.endsBefore_congr hhead])
  | identifier hu hv => exact .identifier hu (hhead ▸ hv)
  | number hu hv => exact .number hu (hhead ▸ hv)
  | minus hd =>
    obtain ⟨tail, rfl⟩ := List.head?_eq_some_iff.mp hhead
    exact .minus hd
  | char hc => exact .char hc
  | string units => exact .string units

theorem Pattern.Forms.phrase_of_mem (h : pattern.Forms ls v)
    (hmem : pattern ∈ Lexicon.standard.patterns) (hl : l ∈ ls) (hkind : l.kind.phrase?.isSome) :
    ∃ p ∈ Phrase.all, pattern = .phrase p ∧ ls = [l] ∧ l = ⟨p.kind, p.words.toList⟩ := by
  cases h with
  | @phrase p =>
    obtain rfl := List.mem_singleton.mp hl
    exact ⟨p, (Lexicon.withScanner_orderly longestRun).phrases p hmem, rfl, rfl, rfl⟩
  | blank | comment | identifier | number | minus | char =>
    rw [List.mem_singleton.mp hl] at hkind
    cases hkind
  | string units =>
    simp only [stringLexemes, List.mem_cons, List.mem_append, List.not_mem_nil, or_false] at hl
    rcases hl with rfl | hl | rfl
    · cases hkind
    · rcases StringUnit.kind_of_mem_lexemes l hl with hl | hl <;> rw [hl] at hkind <;> cases hkind
    · cases hkind

theorem Lexed.phrase_of_mem (h : Lexed ls) (hl : l ∈ ls) (hkind : l.kind.phrase?.isSome) :
    ∃ p ∈ Phrase.all, l = ⟨p.kind, p.words.toList⟩ := by
  induction h with
  | nil => cases hl
  | append hmem hforms _ _ ih =>
    rcases List.mem_append.mp hl with hl | hl
    · obtain ⟨p, hp, _, _, hwords⟩ := hforms.phrase_of_mem hmem hl hkind
      exact ⟨p, hp, hwords⟩
    · exact ih hl

/-- Where a keyword stands among lexemes: it is the first token of them, or behind that one. -/
theorem Pattern.Forms.split_phrase {us vs rest : List Lexeme} (h : pattern.Forms ls v)
    (hmem : pattern ∈ Lexicon.standard.patterns) (hkind : l.kind.phrase?.isSome)
    (hsplit : us ++ l :: vs = ls ++ rest) :
    (us = [] ∧ ls = [l] ∧ vs = rest) ∨ ∃ m, us = ls ++ m ∧ rest = m ++ l :: vs := by
  rcases List.append_eq_append_iff.mp hsplit with ⟨m, rfl, hm⟩ | hbehind
  · cases m with
    | nil => exact .inr ⟨[], by simp, hm.symm⟩
    | cons k m =>
      obtain ⟨rfl, rfl⟩ := List.cons.inj hm
      obtain ⟨_, _, _, hsingle, _⟩ := h.phrase_of_mem hmem (by simp) hkind
      obtain ⟨rfl, rfl⟩ : us = [] ∧ m = [] := by
        simpa [List.append_eq_singleton_iff] using hsingle
      exact .inl ⟨rfl, rfl, rfl⟩
  · exact .inr hbehind

theorem Lexed.drop {us vs : List Lexeme} (h : Lexed (us ++ l :: vs))
    (hkind : l.kind.phrase?.isSome) : Lexed (l :: vs) := by
  generalize hls : us ++ l :: vs = ls at h
  induction h generalizing us with
  | nil => simp at hls
  | append hmem hforms hphrase hrest ih =>
    rcases hforms.split_phrase hmem hkind hls with ⟨rfl, rfl, rfl⟩ | ⟨m, _, rfl⟩
    · exact .append hmem hforms hphrase hrest
    · exact ih rfl

theorem lexed_phrase {q : Phrase} (hq : q ∈ Phrase.all) : Lexed [⟨q.kind, q.words.toList⟩] := by
  have hread := (legible_phrase hq).reads [] (by simp [AtLineEnd])
  rw [Lexicon.read_nil, List.append_nil] at hread
  exact (Lexicon.read_eq_iff.mp hread).1

theorem Phrase.eq_of_closing : ∀ p ∈ Phrase.all, ∀ q ∈ Phrase.all,
    q.kind = .externClose ∨ q.kind = .functionClose →
      q.words.toList <:+ p.words.toList → p = q := by
  decide +kernel

theorem Lexicon.NoPhrase.cut {u rest : List Char} {q : Phrase} (hq : q ∈ Phrase.all)
    (hclosing : q.kind = .externClose ∨ q.kind = .functionClose) (hu : u ≠ [])
    (h : NoPhrase (u ++ q.words.toList ++ rest)) : NoPhrase (u ++ q.words.toList) := by
  intro p hp
  by_contra hfound
  obtain ⟨hne, after, hafter, hends⟩ :=
    readPhrase?_isSome_iff.mp (Option.isSome_iff_ne_none.mpr hfound)
  -- A phrase that is found only in the cut text ends at the cut, with the words in front of it.
  by_cases hlast : after = []
  · rw [hlast, List.append_nil] at hafter
    obtain rfl := Phrase.eq_of_closing p hp q hq hclosing ⟨u, hafter⟩
    exact hu (List.append_left_eq_self.mp hafter)
  · have hhead : (after ++ rest).head? = after.head? := List.head?_append_of_ne_nil after hlast
    refine Option.isSome_iff_ne_none.mp (readPhrase?_isSome_iff.mpr ⟨hne, after ++ rest, ?_, ?_⟩)
      (h p hp)
    · rw [hafter, List.append_assoc]
    · rwa [Phrase.endsBefore_congr hhead]

theorem Lexed.cut {us vs : List Lexeme} (h : Lexed (us ++ l :: vs))
    (hclosing : l.kind = .externClose ∨ l.kind = .functionClose) : Lexed (us ++ [l]) := by
  have hkind : l.kind.phrase?.isSome := by rcases hclosing with hl | hl <;> rw [hl] <;> rfl
  obtain ⟨q, hq, rfl⟩ := h.phrase_of_mem (by simp) hkind
  generalize hls : us ++ ⟨q.kind, q.words.toList⟩ :: vs = ls at h
  induction h generalizing us with
  | nil => simp at hls
  | @append pattern ls rest hmem hforms hphrase hrest ih =>
    rcases hforms.split_phrase hmem hkind hls with ⟨rfl, rfl, rfl⟩ | ⟨m, rfl, rfl⟩
    · exact lexed_phrase hq
    · have hcut : textOf (m ++ ⟨q.kind, q.words.toList⟩ :: vs) =
          textOf m ++ q.words.toList ++ textOf vs := by simp
      have hne : textOf m ++ q.words.toList ≠ [] :=
        List.append_ne_nil_of_right_ne_nil _ (Phrase.words_ne_nil q hq)
      rw [List.append_assoc]
      refine .append hmem (hforms.of_head ?_) (fun hword => ?_) (ih rfl)
      · rw [hcut, List.head?_append_of_ne_nil _ hne]
        simp
      · have hnone := hphrase hword
        rw [hcut, ← List.append_assoc, ← List.append_assoc] at hnone
        have hfront : textOf ls ++ textOf m ≠ [] := by simp [hforms.textOf_ne_nil]
        simpa using hnone.cut hq hclosing hfront

end Cut

end HslTree
