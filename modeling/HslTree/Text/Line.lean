import HslTree.Text.Bytes

/-! Lines of a text, for showing where an offset lies. -/

namespace HslTree

/-- The place of an offset in a text: the number of its line, counted from one, the line with its
terminator, and the distance in bytes from the line's start. -/
structure LinePlace where
  number : Nat
  line : String
  column : Nat
deriving DecidableEq, Repr

def firstLine : List Char → List Char × List Char
  | [] => ([], [])
  | c :: cs =>
    if c = '\n' then ([c], cs) else ((c :: (firstLine cs).1), (firstLine cs).2)

theorem firstLine_append (cs : List Char) : (firstLine cs).1 ++ (firstLine cs).2 = cs := by
  induction cs with
  | nil => rfl
  | cons c cs ih =>
    simp only [firstLine]
    split <;> simp [ih]

theorem firstLine_rest_lt (c : Char) (cs : List Char) :
    (firstLine (c :: cs)).2.length < (c :: cs).length := by
  have h := congrArg List.length (firstLine_append cs)
  simp only [firstLine]
  split
  · simp
  · simp only [List.length_append, List.length_cons] at h ⊢
    omega

/-- Walks the lines of `text`, the first of which has number `number`, to the one that holds
`offset`. The end of the text belongs to an unterminated last line; after a terminator it is an
empty line of its own. -/
def placeFrom (number : Nat) (offset : Nat) (text : List Char) : LinePlace :=
  match text with
  | [] => ⟨number, "", 0⟩
  | c :: cs =>
    let line := (firstLine (c :: cs)).1
    let rest := (firstLine (c :: cs)).2
    let atOpenEnd := rest.isEmpty && offset == byteLength line && line.getLast? != some '\n'
    if offset < byteLength line || atOpenEnd then
      ⟨number, String.ofList line, offset⟩
    else
      placeFrom (number + 1) (offset - byteLength line) rest
termination_by text.length
decreasing_by exact firstLine_rest_lt c cs

def placeOf? (source : String) (offset : Nat) : Option LinePlace :=
  if byteLength source.toList < offset then none
  else some (placeFrom 1 offset source.toList)

end HslTree
