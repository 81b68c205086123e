import Mathlib.Data.List.FinRange
import HslTree.Proofs.FaultPlaces

/-! The order of the table. At any text one pattern applies, or else a phrase and the identifier, so
a table in another order reads the same as long as the phrases stay in front of the identifier. Only
the list of what was tried shows the order. -/

namespace HslTree

section Reordering

variable {α β : Type} {n : Nat}

/-- A list of `n` entries with its places exchanged: place `i` holds what stood at place `σ i`. -/
def reordered (σ : Equiv.Perm (Fin n)) (xs : List α) : List α :=
  (List.finRange n).filterMap fun i => xs[(σ i : Nat)]?

theorem reordered_map (σ : Equiv.Perm (Fin n)) (f : α → β) (xs : List α) :
    reordered σ (xs.map f) = (reordered σ xs).map f := by
  simp [reordered, List.map_filterMap]

theorem reordered_perm {xs : List α} (σ : Equiv.Perm (Fin xs.length)) :
    (reordered σ xs).Perm xs := by
  have hplaces : reordered σ xs = ((List.finRange xs.length).map σ).map xs.get := by
    simp [reordered, List.map_map, Function.comp_def]
  rw [hplaces]
  simpa using σ.map_finRange_perm.map xs.get

end Reordering

def Pattern.isPhrase : Pattern → Bool
  | phrase _ => true
  | _ => false

/-- No phrase stands behind an identifier. -/
def PhrasesFirst (patterns : List Pattern) : Prop :=
  patterns.Pairwise fun p q => p = .identifier → q.isPhrase = false

instance : DecidablePred PhrasesFirst :=
  fun patterns => inferInstanceAs (Decidable (patterns.Pairwise _))

/-- The permutations of the table. -/
abbrev TableOrder := Equiv.Perm (Fin Lexicon.standard.patterns.length)

def Lexicon.reordered (σ : TableOrder) (lexicon : Lexicon) : Lexicon :=
  { lexicon with patterns := HslTree.reordered σ lexicon.patterns }

/-- The fault as it is with a table in another order. Only a fault that lists the whole table shows
the order. -/
def Fault.relisted (σ : TableOrder) : Fault → Fault
  | unrecognised found kinds =>
    unrecognised found
      (if kinds = Lexicon.standard.patterns.map Pattern.kind then reordered σ kinds else kinds)
  | fault => fault

def Diagnostic.relisted (σ : TableOrder) (d : Diagnostic) : Diagnostic :=
  { d with fault := d.fault.relisted σ }

def Reading.relisted (σ : TableOrder) (r : Reading) : Reading :=
  { r with fault? := r.fault?.map fun (fault, distance) => (fault.relisted σ, distance) }

section Faults

variable {σ : TableOrder} {scanner : Scanner} {pattern : Pattern} {text : List Char} {r : Reading}
  {found : String} {kinds : List Kind} {distance : Nat}

theorem readStringBody_attempted {ae : Bool}
    (h : (readStringBody scanner ae text).fault? = some (.unrecognised found kinds, distance)) :
    kinds = [.content] := by
  fun_induction readStringBody scanner ae text with
  | case1 => cases h
  | case2 => cases h
  | case3 _ _ _ _ _ ih => exact ih h
  | case4 _ rest fault _ herror =>
    cases h
    obtain ⟨_, ⟨_, hfault, _⟩ | ⟨_, _, hfault⟩⟩ := readEscape_error_cases herror
    · cases hfault
    · cases hfault
  | case5 _ _ _ _ _ _ _ _ ih => exact ih h
  | case6 _ c rest _ _ _ _ herror =>
    cases h
    unfold readContent at herror
    split at herror
    · cases herror
    · split at herror
      · cases herror
      · cases herror
        rfl

/-- No pattern reports the whole table. -/
theorem Pattern.attempted_of_read? (h : pattern.read? (.withScanner scanner) text = some r)
    (hfault : r.fault? = some (.unrecognised found kinds, distance)) : kinds = [.content] := by
  by_cases hstring : pattern = .string
  · subst hstring
    simp only [read?, readString?] at h
    split at h
    · cases h
      exact readStringBody_attempted hfault
    · cases h
  · have hstandard : pattern.read? .standard text = some r := by
      cases pattern with
      | string => exact absurd rfl hstring
      | _ => exact h
    have hfails := canFail_of_read? hstandard hfault
    cases pattern with
    | string => exact absurd rfl hstring
    | _ => exact hfails.elim

theorem Pattern.relisted_of_read? (h : pattern.read? (.withScanner scanner) text = some r) :
    r.relisted σ = r := by
  obtain ⟨ls, rest, fault?⟩ := r
  cases fault? with
  | none => rfl
  | some d =>
    obtain ⟨fault, distance⟩ := d
    cases fault with
    | unrecognised found kinds =>
      obtain rfl := pattern.attempted_of_read? h rfl
      rfl
    | _ => rfl

end Faults

namespace Lexicon

variable {σ : TableOrder} {scanner : Scanner} {text : List Char}

theorem reordered_patterns_perm (σ : TableOrder) (scanner : Scanner) :
    ((withScanner scanner).reordered σ).patterns.Perm (withScanner scanner).patterns :=
  reordered_perm σ

theorem reordered_orderly (h : PhrasesFirst (HslTree.reordered σ standard.patterns))
    (scanner : Scanner) : ((withScanner scanner).reordered σ).Orderly where
  phrases p hp :=
    (withScanner_orderly scanner).phrases p ((reordered_patterns_perm σ scanner).mem_iff.mp hp)
  order p hp := by
    have hpair : [Pattern.identifier, .phrase p].Pairwise
        fun p q => p = .identifier → q.isPhrase = false := List.Pairwise.sublist hp h
    simp [Pattern.isPhrase] at hpair

theorem read?_reordered (lexicon : Lexicon) (pattern : Pattern) (text : List Char) :
    pattern.read? (lexicon.reordered σ) text = pattern.read? lexicon text := by
  cases pattern <;> rfl

theorem readNext?_reordered (h : PhrasesFirst (HslTree.reordered σ standard.patterns))
    (scanner : Scanner) (text : List Char) :
    ((withScanner scanner).reordered σ).readNext? text = (withScanner scanner).readNext? text := by
  have hperm := reordered_patterns_perm σ scanner
  cases hr : (withScanner scanner).readNext? text with
  | none =>
    refine List.findSome?_eq_none_iff.mpr fun pattern hmem => ?_
    rw [read?_reordered]
    exact List.findSome?_eq_none_iff.mp hr pattern (hperm.mem_iff.mp hmem)
  | some r =>
    obtain ⟨pattern, hmem, hread, hphrase⟩ :=
      (withScanner_orderly scanner).exists_pattern (phrase_mem_patterns scanner) hr
    rw [← read?_reordered] at hread
    exact (reordered_orderly h scanner).readNext?_of_read? (hperm.mem_iff.mpr hmem) hread hphrase

theorem unrecognised_reordered (σ : TableOrder) (scanner : Scanner) (text : List Char) :
    ((withScanner scanner).reordered σ).unrecognised text =
      ((withScanner scanner).unrecognised text).relisted σ := by
  have hkinds : (withScanner scanner).patterns.map Pattern.kind =
      standard.patterns.map Pattern.kind := rfl
  rw [unrecognised, unrecognised, Fault.relisted, hkinds, if_pos rfl, reordered_map]
  rfl

theorem read_reordered (h : PhrasesFirst (HslTree.reordered σ standard.patterns))
    (scanner : Scanner) (text : List Char) :
    ((withScanner scanner).reordered σ).read text =
      ((withScanner scanner).read text).relisted σ := by
  fun_induction Lexicon.read (withScanner scanner) text with
  | case1 => exact read_nil _
  | case2 text hne hr =>
    rw [read_of_none hne ((readNext?_reordered h scanner text).trans hr), unrecognised_reordered]
    rfl
  | case3 text hne r hr hfault ih =>
    rw [read_of_next hne ((readNext?_reordered h scanner text).trans hr) hfault, ih]
    rfl
  | case4 text hne r hr hfault =>
    obtain ⟨pattern, _, hread⟩ := List.exists_of_findSome?_eq_some hr
    rw [read_of_fault hne ((readNext?_reordered h scanner text).trans hr) hfault,
      Pattern.relisted_of_read? hread]

end Lexicon

namespace Session

variable {σ : TableOrder}

def under (s : Session) (lexicon : Lexicon) : Session := { s with lexicon }

theorem close_outcome_relisted (s : Session) (lexicon : Lexicon) (r : Reading) :
    close ((s.under lexicon).outcome (r.relisted σ)) =
      Prod.map (·.under lexicon) (Option.map (Diagnostic.relisted σ)) (close (s.outcome r)) := by
  obtain ⟨ls, rest, fault?⟩ := r
  cases fault? <;> rfl

/-- The order of the table matters between phrases and the identifier only. From any session, and
with any scanner, a table in another order that keeps the phrases in front of the identifier leads
to the same tokens, the same cursor and the same fault at the same place, but for the list of what
was tried, which is in the order of the table. -/
theorem run?_reordered (h : PhrasesFirst (reordered σ Lexicon.standard.patterns)) (s : Session)
    (scanner : Scanner) :
    (s.under ((Lexicon.withScanner scanner).reordered σ)).run? =
      (s.under (.withScanner scanner)).run?.map (Prod.map
        (·.under ((Lexicon.withScanner scanner).reordered σ))
        (Option.map (Diagnostic.relisted σ))) := by
  generalize hlexicon : (Lexicon.withScanner scanner).reordered σ = lexicon
  cases hunread : s.unread? with
  | some text =>
    have hrun (l : Lexicon) : (s.under l).run? =
        some (close ((s.under l).outcome (l.read text))) := run?_eq hunread
    rw [hrun, hrun, ← hlexicon, Lexicon.read_reordered h]
    exact congrArg some (close_outcome_relisted (s.under (.withScanner scanner)) _ _)
  | none =>
    -- A cursor beyond the end of the source reads nothing, one inside a character has no run.
    have hrun (l : Lexicon) : (s.under l).run? = if s.atEnd then
        some ({ s.under l with tokens := s.tokensClosedAt s.cursor }, none) else none := by
      have hnone : (s.under l).unread? = none := hunread
      rw [run?, hnone]
      rfl
    rw [hrun, hrun]
    split <;> rfl

theorem exchanged_table_reads_alike :
    let σ : TableOrder := Equiv.swap ⟨0, by decide⟩ ⟨21, by decide⟩ *
      Equiv.swap ⟨2, by decide⟩ ⟨16, by decide⟩
    let s := Session.start .standard "Jamsignal \"a\" é" "f"
    PhrasesFirst (reordered σ Lexicon.standard.patterns) ∧
      ((s.under (Lexicon.standard.reordered σ)).run?.map fun run => (run.1.cursor, run.2)) =
        some (14, some ⟨.unrecognised "é" [.quote, .comment, .impossible, .externClose,
          .functionOpen, .functionMiddle, .functionClose, .variadic, .callOpen, .callClose,
          .declareResistance, .declareForce, .declarePilot, .assignFather, .assignJudge,
          .pointOfView, .externOpen, .identifier, .number, .minus, .char, .blank],
        .at "f" 14⟩) := by
  intro σ s
  have hσ : PhrasesFirst (reordered σ Lexicon.standard.patterns) := by decide +kernel
  refine ⟨hσ, ?_⟩
  have hrun : (s.under (Lexicon.standard.reordered σ)).run? = _ := run?_reordered hσ s longestRun
  rw [hrun, Option.map_map]
  decide +kernel

end Session

end HslTree
