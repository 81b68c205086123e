import HslTree.Lexeme.Pattern

/-! Reading a whole text with a lexicon. Each pattern that applies without a fault shortens the
text, so the reading ends. -/

namespace HslTree

theorem readRun?_rest_lt {kind : Kind} {p : Char → Bool} {text : List Char} {r : Reading}
    (h : readRun? kind p text = some r) : r.rest.length < text.length := by
  unfold readRun? at h
  split at h
  · split at h
    · cases h
      exact Nat.lt_succ_of_le (List.dropWhile_suffix p).length_le
    · cases h
  · cases h

theorem readComment?_rest_lt {text : List Char} {r : Reading} (h : readComment? text = some r) :
    r.rest.length < text.length := by
  unfold readComment? at h
  split at h
  · rename_i hp
    obtain ⟨body, rfl⟩ := List.isPrefixOf_iff_prefix.1 hp
    cases h
    have hle := (List.dropWhile_suffix (l := body) (!endsLine ·)).length_le
    have hmark : 0 < commentMark.length := by decide
    simp only [Reading.single, List.drop_left, List.length_append]
    omega
  · cases h

theorem readPhrase?_rest_lt {isWord : Char → Bool} {phrase : Phrase} {text : List Char}
    {r : Reading} (h : readPhrase? isWord phrase text = some r) : r.rest.length < text.length := by
  simp only [readPhrase?] at h
  split at h
  · rename_i hp
    obtain ⟨hne, hpre, _⟩ := hp
    cases h
    obtain ⟨tail, ht⟩ := List.isPrefixOf_iff_prefix.1 hpre
    rw [← ht, Reading.single, List.drop_left]
    exact length_lt_of_append rfl hne
  · cases h

theorem readIdentifier?_rest_lt {text : List Char} {r : Reading}
    (h : readIdentifier? text = some r) : r.rest.length < text.length := by
  unfold readIdentifier? at h
  split at h
  · split at h
    · cases h
      exact Nat.lt_succ_of_le (List.dropWhile_suffix isAsciiWordChar).length_le
    · cases h
  · cases h

theorem readNumeral?_rest_lt {text : List Char} {r : Reading} (h : readNumeral? text = some r)
    (hf : r.fault? = none) : r.rest.length < text.length := by
  unfold readNumeral? at h
  split at h
  · rename_i number rest hn
    split at h
    · cases h
      exact length_lt_of_append (append_of_readNumber? hn).1 (append_of_readNumber? hn).2
    · cases h
      cases hf
  · cases h

theorem readMinus?_rest_lt {text : List Char} {r : Reading} (h : readMinus? text = some r) :
    r.rest.length < text.length := by
  unfold readMinus? at h
  split at h
  · split at h
    · cases h
      simp [Reading.single]
    · cases h
  · cases h

theorem readChar?_rest_lt {text : List Char} {r : Reading} (h : readChar? text = some r)
    (hf : r.fault? = none) : r.rest.length < text.length := by
  unfold readChar? at h
  split at h
  · split at h
    · split at h
      · cases h
        simp only [Reading.single, List.length_cons]
        omega
      · cases h
        cases hf
    · cases h
      cases hf
  · cases h

theorem readString?_rest_lt {scanner : Scanner} {text : List Char} {r : Reading}
    (h : readString? scanner text = some r) : r.rest.length < text.length := by
  unfold readString? at h
  split at h
  · cases h
    exact Nat.lt_succ_of_le (readStringBody_rest_le _ _ _)
  · cases h

theorem Pattern.read?_rest_lt {lexicon : Lexicon} {pattern : Pattern} {text : List Char}
    {r : Reading} (h : pattern.read? lexicon text = some r) (hf : r.fault? = none) :
    r.rest.length < text.length := by
  cases pattern with
  | blank => exact readRun?_rest_lt h
  | comment => exact readComment?_rest_lt h
  | phrase p => exact readPhrase?_rest_lt h
  | identifier => exact readIdentifier?_rest_lt h
  | number => exact readNumeral?_rest_lt h hf
  | minus => exact readMinus?_rest_lt h
  | char => exact readChar?_rest_lt h hf
  | string => exact readString?_rest_lt h

namespace Lexicon

theorem readNext?_rest_lt {lexicon : Lexicon} {text : List Char} {r : Reading}
    (h : lexicon.readNext? text = some r) (hf : r.fault? = none) :
    r.rest.length < text.length := by
  obtain ⟨pattern, _, hr⟩ := List.exists_of_findSome?_eq_some h
  exact pattern.read?_rest_lt hr hf

/-- The fault of a text that no pattern applies to. -/
def unrecognised (lexicon : Lexicon) (text : List Char) : Fault :=
  .unrecognised (String.ofList (text.take 1)) (lexicon.patterns.map Pattern.kind)

/-- Reads a text to its end or to the first fault. -/
def read (lexicon : Lexicon) (text : List Char) : Reading :=
  if text = [] then ⟨[], [], none⟩
  else
    match _hr : lexicon.readNext? text with
    | none => .failed (lexicon.unrecognised text) 0 text
    | some reading =>
      if _hf : reading.fault? = none then
        (lexicon.read reading.rest).after reading.lexemes
      else reading
termination_by text.length
decreasing_by exact readNext?_rest_lt _hr _hf

end Lexicon

/-- The outcome of reading the tokens of a text: those that were read, the offset up to which they
reach, and the diagnostic of the fault that stopped the reading, if one did. -/
structure TokenRun where
  tokens : List Token
  stop : Nat
  diagnostic? : Option Diagnostic
deriving DecidableEq, Repr

/-- Reads the tokens of a text that stands at an offset of a file. A run that reaches the end of
the text closes with an end mark. -/
def Lexicon.readAt (lexicon : Lexicon) (file : String) (offset : Nat) (text : List Char) :
    TokenRun :=
  let reading := lexicon.read text
  let tokens := placeAll file offset reading.lexemes
  let stop := offset + byteLength (textOf reading.lexemes)
  match reading.fault? with
  | none => ⟨tokens ++ [.endAt (.at file stop)], stop, none⟩
  | some (fault, distance) => ⟨tokens, stop, some ⟨fault, .at file (stop + distance)⟩⟩

end HslTree
