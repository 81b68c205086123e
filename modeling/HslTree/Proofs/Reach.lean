import HslTree.Proofs.ByteRuns

/-! Where a run stands between two tokens: behind the lexemes read so far and in front of the text
left. A run that fails does so at the last of these places. -/

namespace HslTree

namespace Lexicon

/-- A run over a text comes to stand behind `ls` and in front of `rest`. -/
inductive Reaches (lexicon : Lexicon) (text : List Char) : List Lexeme → List Char → Prop
  | start : Reaches lexicon text [] text
  | step {ls : List Lexeme} {rest : List Char} {r : Reading} (h : Reaches lexicon text ls rest)
      (hr : lexicon.readNext? rest = some r) (hfault : r.fault? = none) :
      Reaches lexicon text (ls ++ r.lexemes) r.rest

variable {lexicon : Lexicon} {text rest rest' : List Char} {ls ms : List Lexeme} {r : Reading}

theorem ne_nil_of_readNext? (hr : lexicon.readNext? rest = some r) (hfault : r.fault? = none) :
    rest ≠ [] := by
  rintro rfl
  exact absurd (readNext?_rest_lt hr hfault) (Nat.not_lt_zero _)

namespace Reaches

theorem trans (h : lexicon.Reaches text ls rest) (h' : lexicon.Reaches rest ms rest') :
    lexicon.Reaches text (ls ++ ms) rest' := by
  induction h' with
  | start => simpa using h
  | step _ hr hfault ih =>
    rw [← List.append_assoc]
    exact ih.step hr hfault

theorem read (h : lexicon.Reaches text ls rest) :
    lexicon.read text = (lexicon.read rest).after ls := by
  induction h with
  | start => rfl
  | step _ hr hfault ih =>
    rw [ih, read_of_next (ne_nil_of_readNext? hr hfault) hr hfault]
    simp [Reading.after]

theorem text_eq (h : standard.Reaches text ls rest) : textOf ls ++ rest = text := by
  induction h with
  | start => rfl
  | step _ hr _ ih =>
    rw [textOf_append, List.append_assoc, (readNext?_covers standard_kinds hr).text, ih]

end Reaches

/-- The place where a fault stops a run: no pattern applies there, or one that does has the
fault. -/
theorem exists_reached_fault (h : (lexicon.read text).fault? ≠ none) :
    ∃ ls rest, lexicon.Reaches text ls rest ∧
      (lexicon.read text = (Reading.failed (lexicon.unrecognised rest) 0 rest).after ls ∨
        ∃ r, lexicon.readNext? rest = some r ∧ lexicon.read text = r.after ls) := by
  fun_induction Lexicon.read lexicon text with
  | case1 => exact absurd rfl h
  | case2 text => exact ⟨[], text, .start, .inl rfl⟩
  | case4 text _ r hr => exact ⟨[], text, .start, .inr ⟨r, hr, rfl⟩⟩
  | case3 text _ r hr hfault ih =>
    obtain ⟨ls, rest, hreach, hread⟩ := ih h
    have hfirst : lexicon.Reaches text r.lexemes r.rest := .step .start hr hfault
    refine ⟨r.lexemes ++ ls, rest, hfirst.trans hreach, ?_⟩
    rcases hread with hread | ⟨r', hr', hread⟩
    · exact .inl (by simp [hread, Reading.after])
    · exact .inr ⟨r', hr', by simp [hread, Reading.after]⟩

end Lexicon

namespace Session

variable {s : Session} {text rest : List Char} {ls : List Lexeme}

theorem run?_of_reaches (hunread : s.unread? = some text)
    (h : s.lexicon.Reaches text ls rest) :
    s.run? = some (close ((s.behind ls).outcome (s.lexicon.read rest))) := by
  rw [run?_eq hunread, h.read, outcome_after]

theorem run?_of_reached_fault {r : Reading} {fault : Fault} {distance : Nat}
    (hunread : s.unread? = some text) (h : s.lexicon.Reaches text ls rest) (hne : rest ≠ [])
    (hr : s.lexicon.readNext? rest = some r) (hfault : r.fault? = some (fault, distance)) :
    s.run? = some (s.behind (ls ++ r.lexemes),
      some ⟨fault, .at s.file (s.cursor + byteLength (textOf (ls ++ r.lexemes)) + distance)⟩) := by
  rw [run?_of_reaches hunread h, Lexicon.read_of_fault hne hr (by simp [hfault]), ← outcome_after,
    outcome, Reading.after, hfault]
  rfl

theorem tokens_of_reaches (hunread : s.unread? = some text) (h : s.lexicon.Reaches text ls rest) :
    ∃ s' x?, s.run? = some (s', x?) ∧
      s.tokens ++ placeAll s.file s.cursor ls <+: s'.tokens := by
  refine ⟨_, _, run?_of_reaches hunread h, ?_⟩
  cases hfault : (s.lexicon.read rest).fault? with
  | none =>
    rw [outcome, hfault]
    exact (List.prefix_append _ _).trans (List.prefix_append _ _)
  | some d =>
    rw [outcome, hfault]
    exact List.prefix_append _ _

end Session

end HslTree
