import HslTree.Proofs.FirstCharacter

/-! The shape of the lexemes that are read from a text. A minus stands in front of a number,
contents and escapes stand between two quotes; where a fault stops the reading, the lexemes may end
there. -/

namespace HslTree

/-- What may follow on the lexemes read so far. -/
inductive Mode
  | plain
  | digits
  | string
deriving DecidableEq

namespace Mode

def next? : Mode → Kind → Option Mode
  | plain, .minus => some digits
  | plain, .quote => some string
  | plain, .content | plain, .escape => none
  | plain, _ => some plain
  | digits, .number => some plain
  | digits, _ => none
  | string, .content | string, .escape => some string
  | string, .quote => some plain
  | string, _ => none

def walk : Mode → List Lexeme → Option Mode
  | m, [] => some m
  | m, l :: ls => (m.next? l.kind).bind (·.walk ls)

theorem walk_append (m : Mode) (ls ms : List Lexeme) :
    m.walk (ls ++ ms) = (m.walk ls).bind (·.walk ms) := by
  induction ls generalizing m with
  | nil => rfl
  | cons l ls ih =>
    simp only [List.cons_append, walk]
    cases m.next? l.kind with
    | none => rfl
    | some m' => exact ih m'

/-- The texts that can be read in a mode. Strings are read as a whole. -/
def Awaits : Mode → List Char → Prop
  | plain, _ => True
  | digits, text => ∃ d rest, text = d :: rest ∧ d.isDigit = true
  | string, _ => False

end Mode

/-- What holds of every reading that starts in a mode. -/
structure Reading.Shaped (r : Reading) (m : Mode) : Prop where
  walks : ∃ m', m.walk r.lexemes = some m' ∧ (r.fault? = none → m'.Awaits r.rest)
  solid : ∀ l ∈ r.lexemes, l.kind = .minus ∨ l.kind = .number → l.text ≠ []
  lexing : ∀ d ∈ r.fault?, d.1.stage = .lexing

namespace Reading

variable {m m' : Mode}

theorem shaped_single {kind : Kind} {first rest : List Char} (hnext : m.next? kind = some m')
    (hawaits : m'.Awaits rest) (hfirst : first ≠ []) : (single kind first rest).Shaped m where
  walks := ⟨m', by simp [single, Mode.walk, hnext], fun _ => hawaits⟩
  solid := by simp [single, hfirst]
  lexing := by simp [single]

theorem shaped_failed {fault : Fault} (hstage : fault.stage = .lexing) (distance : Nat)
    (rest : List Char) : (failed fault distance rest).Shaped m where
  walks := ⟨m, rfl, by simp [failed]⟩
  solid := by simp [failed]
  lexing := by simpa [failed] using hstage

theorem Shaped.after {r : Reading} (h : r.Shaped m') {lexemes : List Lexeme}
    (hwalk : m.walk lexemes = some m')
    (hsolid : ∀ l ∈ lexemes, l.kind = .minus ∨ l.kind = .number → l.text ≠ []) :
    (r.after lexemes).Shaped m where
  walks := by
    obtain ⟨m'', hwalk', hawaits⟩ := h.walks
    refine ⟨m'', ?_, hawaits⟩
    rw [Reading.after, Mode.walk_append, hwalk]
    exact hwalk'
  solid := by
    intro l hl
    rcases List.mem_append.mp hl with hl | hl
    · exact hsolid l hl
    · exact h.solid l hl
  lexing := h.lexing

end Reading

section Strings

theorem readContent_stage {scanner : Scanner} {text : List Char} {fault : Fault} {distance : Nat}
    (h : readContent scanner text = .error (fault, distance)) : fault.stage = .lexing := by
  unfold readContent at h
  split at h
  · cases h
    rfl
  · split at h
    · cases h
    · cases h
      rfl

theorem readEscape_stage {text : List Char} {fault : Fault} {distance : Nat}
    (h : readEscape text = .error (fault, distance)) : fault.stage = .lexing := by
  unfold readEscape at h
  split at h
  · cases h
  · split at h <;> cases h <;> rfl

theorem readStringBody_shaped (scanner : Scanner) (afterEscape : Bool) (text : List Char) :
    (readStringBody scanner afterEscape text).Shaped .string := by
  fun_induction readStringBody scanner afterEscape text with
  | case1 => exact Reading.shaped_failed rfl _ _
  | case2 => exact Reading.shaped_single rfl trivial (by decide)
  | case3 afterEscape rest body rest' h ih =>
    refine ih.after ?_ ?_
    · cases afterEscape <;> rfl
    · cases afterEscape <;> simp [escapeLexemes]
  | case4 afterEscape rest fault distance h => exact Reading.shaped_failed (readEscape_stage h) _ _
  | case5 afterEscape c rest _ _ run rest' h ih => exact ih.after rfl (by simp)
  | case6 afterEscape c rest _ _ fault distance h =>
    exact Reading.shaped_failed (readContent_stage h) _ _

end Strings

section Patterns

variable {pattern : Pattern} {text : List Char} {r : Reading}

theorem Pattern.eq_number_of_digits (hmem : pattern ∈ Lexicon.standard.patterns)
    (h : pattern.read? .standard text = some r) (hdigits : Mode.digits.Awaits text) :
    pattern = .number := by
  obtain ⟨d, rest, rfl, hd⟩ := hdigits
  have hphrases (p : Phrase) (hp : pattern = .phrase p) : p ∈ Phrase.all :=
    (Lexicon.withScanner_orderly longestRun).phrases p (hp ▸ hmem)
  obtain ⟨c, tail, hc, hfamily⟩ := pattern.familyOf?_of_read? hphrases h
  obtain ⟨rfl, _⟩ := List.cons.inj hc
  rw [familyOf?_number hd] at hfamily
  have hfamilies : ∀ p ∈ Lexicon.standard.patterns, p.family = .number → p = .number := by decide
  exact hfamilies pattern hmem (Option.some.inj hfamily).symm

theorem Pattern.exists_mode {m : Mode} (hm : m.Awaits text)
    (hmem : pattern ∈ Lexicon.standard.patterns) (hstring : pattern ≠ .string)
    (h : pattern.read? .standard text = some r) (hfault : r.fault? = none) :
    ∃ m', m.next? pattern.kind = some m' ∧ m'.Awaits r.rest := by
  cases m with
  | string => exact hm.elim
  | digits =>
    obtain rfl := pattern.eq_number_of_digits hmem h hm
    exact ⟨.plain, rfl, trivial⟩
  | plain =>
    by_cases hminus : pattern = .minus
    · subst hminus
      obtain ⟨ls, v, fault?⟩ := r
      cases Pattern.forms_of_read? h hfault with
      | minus hd => exact ⟨.digits, rfl, _, _, rfl, hd⟩
    · have hkinds : ∀ p ∈ Lexicon.standard.patterns, p ≠ .string → p ≠ .minus →
          Mode.next? .plain p.kind = some .plain := by decide
      exact ⟨.plain, hkinds pattern hmem hstring hminus, trivial⟩

theorem Pattern.read?_shaped {m : Mode} (hm : m.Awaits text)
    (hmem : pattern ∈ Lexicon.standard.patterns) (h : pattern.read? .standard text = some r) :
    r.Shaped m := by
  by_cases hstring : pattern = .string
  · subst hstring
    cases m with
    | string => exact hm.elim
    | digits => cases Pattern.eq_number_of_digits hmem h hm
    | plain =>
      simp only [read?, readString?] at h
      split at h
      · cases h
        exact (readStringBody_shaped _ _ _).after rfl (by simp)
      · cases h
  · rcases read?_single hstring h with ⟨first, hsingle⟩ | ⟨fault, distance, hstage, rfl⟩
    · have hfault : r.fault? = none := by rw [hsingle]; rfl
      obtain ⟨m', hnext, hawaits⟩ := pattern.exists_mode hm hmem hstring h hfault
      have hsolid := (read?_covers (Lexicon.standard_kinds pattern hmem) h).solid
      rw [hsingle] at hsolid ⊢
      exact Reading.shaped_single hnext hawaits (hsolid _ rfl)
    · exact Reading.shaped_failed hstage _ _

end Patterns

theorem Lexicon.read_shaped {m : Mode} {text : List Char} (hm : m.Awaits text) :
    (standard.read text).Shaped m := by
  fun_induction Lexicon.read standard text generalizing m with
  | case1 => exact ⟨⟨m, rfl, fun _ => hm⟩, by simp, by simp⟩
  | case2 => exact Reading.shaped_failed rfl _ _
  | case3 text _ reading hr hf ih =>
    obtain ⟨pattern, hmem, hread⟩ := List.exists_of_findSome?_eq_some hr
    have hshaped := pattern.read?_shaped hm hmem hread
    obtain ⟨m', hwalk, hawaits⟩ := hshaped.walks
    exact (ih (hawaits hf)).after hwalk hshaped.solid
  | case4 text _ reading hr hf =>
    obtain ⟨pattern, hmem, hread⟩ := List.exists_of_findSome?_eq_some hr
    exact pattern.read?_shaped hm hmem hread

end HslTree
