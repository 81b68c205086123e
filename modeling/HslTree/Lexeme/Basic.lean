import HslTree.Diagnostic
import HslTree.Text.Bytes
import HslTree.Token.Basic

/-! Lexemes: pieces of text with a kind, before they are given a place. Reading a text is
independent of where the text stands; placing the lexemes one after the other makes tokens. -/

namespace HslTree

structure Lexeme where
  kind : Kind
  text : List Char
deriving DecidableEq, Repr

def Lexeme.place (file : String) (offset : Nat) (lexeme : Lexeme) : Token :=
  ⟨lexeme.kind, String.ofList lexeme.text,
    .between file offset (offset + byteLength lexeme.text)⟩

/-- Places lexemes one after the other from an offset on. -/
def placeAll (file : String) : Nat → List Lexeme → List Token
  | _, [] => []
  | offset, lexeme :: rest =>
    lexeme.place file offset :: placeAll file (offset + byteLength lexeme.text) rest

def textOf (lexemes : List Lexeme) : List Char := lexemes.flatMap (·.text)

/-- What reading a text gives: the lexemes read, the text left, and the fault that stopped the
reading, if one did, with its distance in bytes from the start of the text left. -/
structure Reading where
  lexemes : List Lexeme
  rest : List Char
  fault? : Option (Fault × Nat)
deriving DecidableEq, Repr

namespace Reading

def single (kind : Kind) (text rest : List Char) : Reading := ⟨[⟨kind, text⟩], rest, none⟩

/-- Nothing was read, because of a fault some bytes into the text. -/
def failed (fault : Fault) (distance : Nat) (rest : List Char) : Reading :=
  ⟨[], rest, some (fault, distance)⟩

def after (lexemes : List Lexeme) (reading : Reading) : Reading :=
  { reading with lexemes := lexemes ++ reading.lexemes }

@[simp]
theorem after_rest (lexemes : List Lexeme) (reading : Reading) :
    (after lexemes reading).rest = reading.rest := rfl

@[simp]
theorem after_fault? (lexemes : List Lexeme) (reading : Reading) :
    (after lexemes reading).fault? = reading.fault? := rfl

end Reading

end HslTree
