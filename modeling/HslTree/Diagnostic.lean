import HslTree.Span
import HslTree.Text.Quoted
import HslTree.Token.Kind

/-! Diagnostics: why a source was rejected, and where. -/

namespace HslTree

inductive Fault
  /-- No token starts with this character; `attempted` lists the kinds that were tried. -/
  | unrecognised (text : String) (attempted : List Kind)
  /-- A word starts with a digit but is no number. -/
  | malformedNumber (text : String)
  | malformedEscape (text : String)
  | malformedChar (text : String)
  | unterminatedString
  | unexpected (expected : List Kind) (found : Kind) (text : String)
deriving DecidableEq, Repr

/-- The two stages of reading: text into tokens, tokens into a tree. -/
inductive Stage
  | lexing
  | parsing
deriving DecidableEq, Repr

namespace Fault

def stage : Fault → Stage
  | unexpected .. => .parsing
  | _ => .lexing

def name : Fault → String
  | unrecognised .. => "UnrecognisedToken"
  | malformedNumber _ => "MalformedNumber"
  | malformedEscape _ => "MalformedEscape"
  | malformedChar _ => "MalformedChar"
  | unterminatedString => "UnterminatedString"
  | unexpected .. => "UnexpectedToken"

def message : Fault → String
  | unrecognised text _ => "unrecognised token: " ++ quoted text
  | malformedNumber text => "malformed number: " ++ quoted text
  | malformedEscape text => "malformed escape sequence: " ++ quoted text
  | malformedChar text => "malformed char literal: " ++ quoted text
  | unterminatedString => "unterminated string literal"
  | unexpected expected found text =>
    "unexpected token " ++ found.display ++ " (" ++ quoted text ++ "), expected one of [" ++
      ", ".intercalate (expected.map Kind.name) ++ "]"

def tip? : Fault → Option String
  | unrecognised .. => none
  | malformedNumber text =>
    some ("Invalid number: `" ++ text ++
      "`, integers are decimal or use a 0x, 0b or 0o prefix followed by digits")
  | malformedEscape text =>
    some ("Invalid escape: `" ++ text ++
      "`, use \\xHH, \\uHHHH, \\u\x7bH..\x7d or a single character")
  | malformedChar text =>
    some ("Invalid char literal: `" ++ text ++ "`, a char holds exactly one ASCII letter")
  | unterminatedString => some "String is missing its closing `\"`"
  | unexpected expected _ _ =>
    some ("Expected one of: " ++ ", ".intercalate (expected.map Kind.display))

end Fault

structure Diagnostic where
  fault : Fault
  position : Position
deriving DecidableEq, Repr

def Diagnostic.message (d : Diagnostic) : String :=
  d.fault.message ++ " at " ++ d.position.file ++ ":" ++ toString d.position.offset.toNat

end HslTree
