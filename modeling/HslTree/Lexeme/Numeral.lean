import HslTree.Text.WordChar

/-! Numbers: decimal digits, or digits of another base behind its marker, with underscores
anywhere after the first digit or the marker. -/

namespace HslTree

inductive Radix
  | binary
  | octal
  | decimal
  | hexadecimal
deriving DecidableEq, Repr

def isHexDigit (c : Char) : Bool :=
  c.isDigit || ('a' ≤ c && c ≤ 'f') || ('A' ≤ c && c ≤ 'F')

namespace Radix

def base : Radix → Nat
  | binary => 2
  | octal => 8
  | decimal => 10
  | hexadecimal => 16

def marker : Radix → List Char
  | binary => ['0', 'b']
  | octal => ['0', 'o']
  | decimal => []
  | hexadecimal => ['0', 'x']

def isDigit : Radix → Char → Bool
  | binary, c => c == '0' || c == '1'
  | octal, c => '0' ≤ c && c ≤ '7'
  | decimal, c => c.isDigit
  | hexadecimal, c => isHexDigit c

def isBody (radix : Radix) (c : Char) : Bool := radix.isDigit c || c == '_'

/-- Whether a character may stand first in the body. An underscore may only behind a marker. -/
def startsBody : Radix → Char → Bool
  | decimal, c => c.isDigit
  | radix, c => radix.isBody c

/-- The number of this base at the start of a text, and what follows it. The number is as long as
possible. -/
def read? (radix : Radix) (text : List Char) : Option (List Char × List Char) :=
  if radix.marker.isPrefixOf text then
    match text.drop radix.marker.length with
    | [] => none
    | c :: body =>
      if radix.startsBody c then
        some (radix.marker ++ c :: body.takeWhile radix.isBody, body.dropWhile radix.isBody)
      else none
  else none

end Radix

/-- The number at the start of a text, and what follows it: marked numbers are tried before
decimal ones. -/
def readNumber? (text : List Char) : Option (List Char × List Char) :=
  [Radix.hexadecimal, .binary, .octal, .decimal].findSome? (·.read? text)

theorem Radix.append_of_read? {radix : Radix} {text number rest : List Char}
    (h : radix.read? text = some (number, rest)) : number ++ rest = text ∧ number ≠ [] := by
  unfold Radix.read? at h
  split at h
  · rename_i hp
    obtain ⟨tail, rfl⟩ := List.isPrefixOf_iff_prefix.1 hp
    simp only [List.drop_left] at h
    split at h
    · simp at h
    · split at h
      · simp only [Option.some.injEq, Prod.mk.injEq] at h
        rw [← h.1, ← h.2]
        simp [List.takeWhile_append_dropWhile]
      · simp at h
  · simp at h

theorem append_of_readNumber? {text number rest : List Char}
    (h : readNumber? text = some (number, rest)) : number ++ rest = text ∧ number ≠ [] := by
  obtain ⟨radix, _, hr⟩ := List.exists_of_findSome?_eq_some h
  exact Radix.append_of_read? hr

end HslTree
