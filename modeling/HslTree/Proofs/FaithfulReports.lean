import HslTree.Proofs.FaultPlaces
import HslTree.Proofs.LeftmostFault
import HslTree.Proofs.LinePlaces

/-! Diagnostics that can be shown. Whatever is wrong with a source, the place that is reported lies
between two characters of it, and a token that is named in the report stands at that place. -/

namespace HslTree

/-- The token that a fault names. Faults inside a string or a letter in quotes name none: what they
show starts in front of their place. -/
def Fault.token? : Fault → Option String
  | unrecognised text _ => some text
  | malformedNumber text => some text
  | unexpected _ _ text => some text
  | malformedEscape _ | malformedChar _ | unterminatedString => none

/-- A fault some bytes into a text: between two of its characters, and in front of the token that
is named. -/
def Fault.LiesAt (fault : Fault) (distance : Nat) (text : List Char) : Prop :=
  ∃ before after, text = before ++ after ∧ distance = byteLength before ∧
    ∀ token ∈ fault.token?, token.toList <+: after

namespace Fault

variable {fault : Fault} {distance : Nat} {text : List Char}

theorem liesAt_zero (h : ∀ token ∈ fault.token?, token.toList <+: text) : fault.LiesAt 0 text :=
  ⟨[], text, rfl, rfl, h⟩

theorem LiesAt.append_left (h : fault.LiesAt distance text) (front : List Char) :
    fault.LiesAt (byteLength front + distance) (front ++ text) := by
  obtain ⟨before, after, rfl, rfl, htoken⟩ := h
  refine ⟨front ++ before, after, by rw [List.append_assoc], ?_, htoken⟩
  rw [byteLength_append]

theorem liesAt_end (h : fault.token? = none) (text : List Char) :
    fault.LiesAt (byteLength text) text :=
  ⟨text, [], by rw [List.append_nil], rfl, by simp [h]⟩

theorem liesAt_unrecognised (text : List Char) (kinds : List Kind) :
    (unrecognised (String.ofList (text.take 1)) kinds).LiesAt 0 text := by
  refine liesAt_zero ?_
  simpa [token?] using List.take_prefix 1 text

end Fault

section Strings

variable {fault : Fault} {distance : Nat} {text : List Char}

theorem readContent_liesAt {scanner : Scanner}
    (h : readContent scanner text = .error (fault, distance)) : fault.LiesAt distance text := by
  unfold readContent at h
  split at h
  · cases h
    exact Fault.liesAt_end rfl text
  · split at h
    · cases h
    · cases h
      exact Fault.liesAt_unrecognised text _

theorem readEscape_liesAt (h : readEscape text = .error (fault, distance)) :
    fault.LiesAt distance ('\\' :: text) := by
  unfold readEscape at h
  split at h
  · cases h
  · split at h
    · rename_i hnil
      cases h
      rw [hnil]
      exact Fault.liesAt_end rfl ['\\']
    · cases h
      obtain ⟨after, hafter⟩ := escapeStem_isPrefix text
      refine ⟨'\\' :: escapeStem text, after, ?_, rfl, by simp [Fault.token?]⟩
      rw [List.cons_append, hafter]

theorem readStringBody_liesAt (scanner : Scanner) (afterEscape : Bool) (text : List Char) :
    ∀ x ∈ (readStringBody scanner afterEscape text).fault?,
      x.1.LiesAt x.2 (readStringBody scanner afterEscape text).rest := by
  fun_induction readStringBody scanner afterEscape text with
  | case1 => simpa [Reading.failed] using Fault.liesAt_zero (by simp [Fault.token?])
  | case2 => simp [Reading.single]
  | case3 _ _ _ _ _ ih => exact ih
  | case4 _ rest fault distance h => simpa [Reading.failed] using readEscape_liesAt h
  | case5 _ _ _ _ _ _ _ _ ih => exact ih
  | case6 _ c rest _ _ fault distance h => simpa [Reading.failed] using readContent_liesAt h

end Strings

section Patterns

variable {pattern : Pattern} {fault : Fault} {distance : Nat} {text : List Char} {r : Reading}

theorem readNumeral?_liesAt (h : readNumeral? text = some r)
    (hfault : r.fault? = some (fault, distance)) : fault.LiesAt distance r.rest := by
  unfold readNumeral? at h
  split at h
  · rename_i number rest hnumber
    split at h
    · cases h
      cases hfault
    · cases h
      cases hfault
      have hword : number ++ rest.takeWhile isAsciiWordChar <+: text := by
        rw [← (append_of_readNumber? hnumber).1]
        exact (List.prefix_append_right_inj number).mpr (List.takeWhile_prefix _)
      exact Fault.liesAt_zero (by simpa [Fault.token?, Reading.failed] using hword)
  · cases h

theorem readChar?_liesAt (h : readChar? text = some r)
    (hfault : r.fault? = some (fault, distance)) : fault.LiesAt distance r.rest := by
  have hcovers := (readChar?_covers h).text
  obtain ⟨wrong, stem, after, rfl, hlexemes, htext, _, _, rfl⟩ := readChar?_fault h hfault
  rw [hlexemes, htext] at hcovers
  exact ⟨stem, after, hcovers, rfl, by simp [Fault.token?]⟩

theorem Pattern.liesAt_of_read? (h : pattern.read? .standard text = some r)
    (hfault : r.fault? = some (fault, distance)) : fault.LiesAt distance r.rest := by
  have hcan := Pattern.canFail_of_read? h hfault
  cases pattern with
  | number => exact readNumeral?_liesAt h hfault
  | char => exact readChar?_liesAt h hfault
  | string =>
    change readString? longestRun text = some r at h
    unfold readString? at h
    split at h
    · cases h
      exact readStringBody_liesAt _ _ _ _ hfault
    · cases h
  | blank | comment | phrase | identifier | minus => exact hcan.elim

theorem Lexicon.read_liesAt (h : (standard.read text).fault? = some (fault, distance)) :
    fault.LiesAt distance (standard.read text).rest := by
  fun_induction Lexicon.read standard text with
  | case1 => cases h
  | case2 text =>
    cases h
    exact Fault.liesAt_unrecognised text _
  | case3 _ _ _ _ _ ih => exact ih h
  | case4 _ _ r hr _ =>
    obtain ⟨pattern, _, hread⟩ := List.exists_of_findSome?_eq_some hr
    exact pattern.liesAt_of_read? hread h

end Patterns

/-- A diagnostic whose place is one of a text. -/
def Diagnostic.PointsInto (d : Diagnostic) (file : String) (text : List Char) : Prop :=
  ∃ n, d.position = .at file n ∧ d.fault.LiesAt n text

section Sources

variable {file : String} {text : List Char} {d x : Diagnostic}

theorem readAt_pointsInto (h : (Lexicon.standard.readAt file 0 text).diagnostic? = some x) :
    x.PointsInto file text := by
  cases hfault : (Lexicon.standard.read text).fault? with
  | none =>
    rw [Lexicon.readAt_of_none _ _ hfault] at h
    cases h
  | some y =>
    obtain ⟨fault, distance⟩ := y
    rw [Lexicon.readAt_of_some _ _ hfault, Nat.zero_add] at h
    obtain rfl := Option.some.inj h
    have hlies := (Lexicon.read_liesAt hfault).append_left
      (textOf (Lexicon.standard.read text).lexemes)
    rw [(Lexicon.read_covers Lexicon.standard_kinds text).text] at hlies
    exact ⟨_, rfl, hlies⟩

/-- A parse blames one of the tokens, which stands where it was read, or the end mark. -/
theorem parseTokens_pointsInto {mark : Nat} {lexemes : List Lexeme} {rest : List Char}
    (htext : textOf lexemes ++ rest = text)
    (hmarks : ∀ t ∈ placeAll file 0 lexemes, t.kind ≠ .endOfInput)
    (hmark : ∃ before after, text = before ++ after ∧ mark = byteLength before)
    (h : parseTokens file (placeAll file 0 lexemes ++ [.endAt (.at file mark)]) = .error d) :
    d.PointsInto file text := by
  obtain ⟨pre, t, q, _, _, rfl, ⟨_, rfl⟩ | ⟨post, hsplit⟩⟩ := blamed_of_error hmarks rfl h
  · obtain ⟨before, after, htext, hmark⟩ := hmark
    exact ⟨mark, rfl, before, after, htext, hmark, by simp [Fault.token?, Token.endAt]⟩
  · obtain ⟨us, vs, rfl, rfl, hvs⟩ := placeAll_split hsplit.symm
    cases vs with
    | nil => cases hvs
    | cons v vs =>
      obtain ⟨rfl, _⟩ := List.cons.inj hvs
      refine ⟨_, rfl, textOf us, v.text ++ (textOf vs ++ rest), ?_, Nat.zero_add _, ?_⟩
      · rw [← htext, textOf_append, textOf_cons, List.append_assoc, List.append_assoc]
      · simp [Fault.token?, Lexeme.place]

theorem Lexicon.readTree_pointsInto {source : String} {label? : Option String}
    (h : standard.readTree source label? = .error d) :
    d.PointsInto (label?.getD defaultLabel) source.toList := by
  have hcovers := (read_covers standard_kinds source.toList).text
  cases hfault : (standard.read source.toList).fault? with
  | none =>
    have htext := read_ok hfault
    rw [readTree, readAt_of_none _ _ hfault, Nat.zero_add, htext] at h
    exact parseTokens_pointsInto hcovers placeAll_read_marks
      ⟨source.toList, [], by rw [List.append_nil], rfl⟩ h
  | some y =>
    obtain ⟨fault, distance⟩ := y
    have hrun := readAt_of_some (label?.getD defaultLabel) 0 hfault
    obtain ⟨x, hx⟩ : ∃ x, (standard.readAt (label?.getD defaultLabel) 0
        source.toList).diagnostic? = some x := ⟨_, congrArg TokenRun.diagnostic? hrun⟩
    have hlexical := readAt_pointsInto hx
    cases hparse : parseTokens (label?.getD defaultLabel)
        ((standard.readAt (label?.getD defaultLabel) 0 source.toList).tokens ++
          [.endAt x.position]) with
    | ok tree =>
      rw [readTree_of_parse_ok hx hparse] at h
      cases h
      exact hlexical
    | error e =>
      rw [readTree_of_parse_error hx hparse] at h
      obtain rfl := Except.error.inj h
      split
      · obtain ⟨n, hn, before, after, htext, hbefore, _⟩ := hlexical
        rw [hn, hrun] at hparse
        exact parseTokens_pointsInto hcovers placeAll_read_marks
          ⟨before, after, htext, hbefore⟩ hparse
      · exact hlexical

end Sources

/-- What makes a diagnostic fit to be shown with its source. -/
structure Faithful (source : String) (label? : Option String) (d : Diagnostic) : Prop where
  reach : d.position.offset.toNat ≤ byteLength source.toList
  boundary : isBoundary source.toList d.position.offset.toNat = true
  file : d.position.file = label?.getD defaultLabel
  line : (placeOf? source d.position.offset.toNat).isSome
  token : ∀ token ∈ d.fault.token?,
    slice? source.toList d.position.offset.toNat
      (d.position.offset.toNat + byteLength token.toList) = some token.toList

theorem Diagnostic.PointsInto.faithful {source : String} {label? : Option String}
    {d : Diagnostic} (hsize : byteLength source.toList < 2 ^ 32)
    (h : d.PointsInto (label?.getD defaultLabel) source.toList) : Faithful source label? d := by
  obtain ⟨n, hposition, before, after, htext, rfl, htoken⟩ := h
  have hlength : byteLength source.toList = byteLength before + byteLength after := by
    rw [htext, byteLength_append]
  have hoffset : d.position.offset.toNat = byteLength before := by
    rw [hposition]
    exact Position.toNat_at _ (by omega)
  have hreach : d.position.offset.toNat ≤ byteLength source.toList := by omega
  refine ⟨hreach, ?_, by rw [hposition]; rfl, ?_, fun token hmem => ?_⟩
  · rw [hoffset, htext, isBoundary, splitAtByte?_byteLength]
    rfl
  · rw [Option.isSome_iff_ne_none, ne_eq, placeOf?_eq_none_iff]
    omega
  · obtain ⟨rest, rfl⟩ := htoken token hmem
    rw [hoffset, htext]
    exact slice?_append _ _ _

/-- Whatever is wrong with a source, its diagnostic can be shown with it: the place lies between two
characters of the source, its line is found, and the token named there is the text of the source. -/
theorem readTree_error_faithful {source : String} {label? : Option String} {d : Diagnostic}
    (hsize : byteLength source.toList < 2 ^ 32)
    (h : Lexicon.standard.readTree source label? = .error d) : Faithful source label? d :=
  (Lexicon.readTree_pointsInto h).faithful hsize

/-- A keyword out of place behind characters of several bytes, in front of a malformed number. -/
theorem misplaced_keyword_faithful :
    let source := "<(-.-)> é世\nJamsignal 12ab"
    let d : Diagnostic :=
      ⟨.unexpected [.endOfInput, .externOpen, .functionOpen] .externClose "Jamsignal",
        .at defaultLabel 14⟩
    byteLength source.toList < 2 ^ 32 ∧ Lexicon.standard.readTree source none = .error d ∧
      Faithful source none d := by
  intro source d
  have hsize : byteLength source.toList < 2 ^ 32 := by decide +kernel
  have hread : Lexicon.standard.readTree source none = .error d := by decide +kernel
  exact ⟨hsize, hread, readTree_error_faithful hsize hread⟩

end HslTree
