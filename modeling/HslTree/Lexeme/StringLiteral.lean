import HslTree.Lexeme.Basic
import HslTree.Lexeme.Escape

/-! String literals: plain runs and escapes between double quotes. How far a plain run reaches is
asked of a scanner, whose answer is checked before it is used. -/

namespace HslTree

/-- Told the text in front of it, which starts with a plain character, a scanner answers with the
byte length of a plain run, or with `none` if the text ends before a quote or a backslash. -/
abbrev Scanner := List Char → Option Nat

def isPlain (c : Char) : Bool := c != '"' && c != '\\'

def longestRun : Scanner := fun text =>
  if text.all isPlain then none else some (byteLength (text.takeWhile isPlain))

/-- The plain run of a given byte length at the start of a text, and what follows it. A run is not
empty and ends between two characters. -/
def plainRun? (length : Nat) (text : List Char) : Option (List Char × List Char) :=
  match splitAtByte? length text with
  | some (run, rest) => if run ≠ [] ∧ run.all isPlain then some (run, rest) else none
  | none => none

theorem append_of_plainRun? {length : Nat} {text run rest : List Char}
    (h : plainRun? length text = some (run, rest)) : run ++ rest = text ∧ run ≠ [] := by
  unfold plainRun? at h
  split at h
  · rename_i run' rest' hs
    split at h
    · rename_i hplain
      cases h
      exact ⟨(append_of_splitAtByte? hs).1, hplain.1⟩
    · simp at h
  · simp at h

theorem length_lt_of_append {first rest text : List Char} (h : first ++ rest = text)
    (hne : first ≠ []) : rest.length < text.length := by
  have hpos := List.length_pos_iff.2 hne
  rw [← h, List.length_append]
  omega

def readContent (scanner : Scanner) (text : List Char) :
    Except (Fault × Nat) (List Char × List Char) :=
  match scanner text with
  | none => .error (.unterminatedString, byteLength text)
  | some length =>
    match plainRun? length text with
    | some parts => .ok parts
    | none => .error (.unrecognised (String.ofList (text.take 1)) [.content], 0)

/-- The body of the escape behind a backslash, and what follows it. A fault lies behind the part
that is still right, and shows one character more than that. -/
def readEscape (text : List Char) : Except (Fault × Nat) (List Char × List Char) :=
  match readEscape? text with
  | some parts => .ok parts
  | none =>
    if text = [] then .error (.unterminatedString, 1)
    else
      let stem := escapeStem text
      let wrong := '\\' :: stem ++ (text.drop stem.length).take 1
      .error (.malformedEscape (String.ofList wrong), 1 + byteLength stem)

theorem length_lt_of_readContent {scanner : Scanner} {text run rest : List Char}
    (h : readContent scanner text = .ok (run, rest)) : rest.length < text.length := by
  unfold readContent at h
  split at h
  · cases h
  · split at h
    · rename_i hp
      cases h
      exact length_lt_of_append (append_of_plainRun? hp).1 (append_of_plainRun? hp).2
    · cases h

theorem length_lt_of_readEscape {text body rest : List Char}
    (h : readEscape text = .ok (body, rest)) : rest.length < text.length := by
  unfold readEscape at h
  split at h
  · rename_i hp
    cases h
    exact length_lt_of_append (append_of_readEscape? hp).1 (append_of_readEscape? hp).2
  · split at h <;> cases h

/-- Two escapes in a row are kept apart by an empty run. -/
def escapeLexemes (afterEscape : Bool) (body : List Char) : List Lexeme :=
  if afterEscape then [⟨.content, []⟩, ⟨.escape, '\\' :: body⟩]
  else [⟨.escape, '\\' :: body⟩]

/-- Reads a string from behind its opening quote to its closing quote. `afterEscape` says whether
the last thing read was an escape. -/
def readStringBody (scanner : Scanner) (afterEscape : Bool) (text : List Char) : Reading :=
  match text with
  | [] => .failed .unterminatedString 0 []
  | '"' :: rest => .single .quote ['"'] rest
  | '\\' :: rest =>
    match _hbody : readEscape rest with
    | .ok (body, rest') =>
      (readStringBody scanner true rest').after (escapeLexemes afterEscape body)
    | .error (fault, distance) => .failed fault distance ('\\' :: rest)
  | c :: rest =>
    match _hrun : readContent scanner (c :: rest) with
    | .ok (run, rest') => (readStringBody scanner false rest').after [⟨.content, run⟩]
    | .error (fault, distance) => .failed fault distance (c :: rest)
termination_by text.length
decreasing_by
  · have hlt := length_lt_of_readEscape _hbody
    simp only [List.length_cons]
    omega
  · exact length_lt_of_readContent _hrun

theorem readStringBody_rest_le (scanner : Scanner) (afterEscape : Bool) (text : List Char) :
    (readStringBody scanner afterEscape text).rest.length ≤ text.length := by
  fun_induction readStringBody scanner afterEscape text with
  | case1 => simp [Reading.failed]
  | case2 => simp [Reading.single]
  | case3 afterEscape rest body rest' h ih =>
    have hlt := length_lt_of_readEscape h
    simp only [Reading.after_rest, List.length_cons]
    omega
  | case4 => simp [Reading.failed]
  | case5 afterEscape c rest _ _ run rest' h ih =>
    have hlt := length_lt_of_readContent h
    simp only [Reading.after_rest]
    omega
  | case6 => simp [Reading.failed]

end HslTree
