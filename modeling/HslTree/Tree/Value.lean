import HslTree.Lexeme.Numeral
import HslTree.Tree.Basic

/-! Values of literals. A tree keeps literals as they are written; here they are read as integers,
texts and letters. Booleans have no value: the language gives them no truth. -/

namespace HslTree

def digitValue? (base : Nat) (c : Char) : Option Nat :=
  let value? :=
    if c.isDigit then some (c.toNat - '0'.toNat)
    else if 'a' ≤ c ∧ c ≤ 'f' then some (c.toNat - 'a'.toNat + 10)
    else if 'A' ≤ c ∧ c ≤ 'F' then some (c.toNat - 'A'.toNat + 10)
    else none
  value?.filter (· < base)

/-- The number that digits denote, when those in front of them denote `value`. -/
def digitsValueFrom? (base : Nat) : Nat → List Char → Option Nat
  | value, [] => some value
  | value, c :: rest =>
    (digitValue? base c).bind fun digit => digitsValueFrom? base (value * base + digit) rest

/-- The number that a text of digits denotes. One plus sign may stand in front of them. -/
def digitsValue? (base : Nat) : List Char → Option Nat
  | [] => none
  | '+' :: c :: rest => digitsValueFrom? base 0 (c :: rest)
  | text => digitsValueFrom? base 0 text

def splitRadix : List Char → Radix × List Char
  | '0' :: 'x' :: body => (.hexadecimal, body)
  | '0' :: 'b' :: body => (.binary, body)
  | '0' :: 'o' :: body => (.octal, body)
  | text => (.decimal, text)

def magnitudeLimit : Nat := Nat.pow 2 128

/-- The magnitude that a number denotes. Underscores only divide its digits. -/
def magnitude? (text : List Char) : Option Nat :=
  let (radix, body) := splitRadix text
  (digitsValue? radix.base (body.filter (· ≠ '_'))).filter (· < magnitudeLimit)

/-- Integers are signed words of 128 bits: from minus this number up to, and without, this
number. -/
def integerLimit : Nat := Nat.pow 2 127

def signedWord? (negative : Bool) (magnitude : Nat) : Option Int :=
  -- The least integer has no positive counterpart.
  if negative then
    if magnitude ≤ integerLimit then some (-(magnitude : Int)) else none
  else
    if magnitude < integerLimit then some (magnitude : Int) else none

def scalar? (code : Nat) : Option Char :=
  if code.isValidChar then some (Char.ofNat code) else none

def trimBraces (text : List Char) : List Char :=
  ((text.dropWhile (· = '{')).reverse.dropWhile (· = '}')).reverse

def escapeValue? : List Char → Option Char
  | '\\' :: 'n' :: _ => some '\n'
  | '\\' :: 't' :: _ => some '\t'
  | '\\' :: 'r' :: _ => some '\r'
  | '\\' :: '0' :: _ => some '\x00'
  | '\\' :: 'x' :: digits => (digitsValue? 16 digits).bind scalar?
  | '\\' :: 'u' :: digits => (digitsValue? 16 (trimBraces digits)).bind scalar?
  | '\\' :: c :: _ => some c
  | _ => none

/-- The text that the tokens of a string denote. Tokens that are neither runs nor escapes denote
nothing. -/
def contentValue? : List Token → Option (List Char)
  | [] => some []
  | token :: rest =>
    match token.kind with
    | .content => (contentValue? rest).map (token.value.toList ++ ·)
    | .escape =>
      (escapeValue? token.value.toList).bind fun c => (contentValue? rest).map (c :: ·)
    | _ => contentValue? rest

namespace Tree

def integerValue? (tree : Tree) : Option Int :=
  if tree.kind? = some .integer then
    (tree.tokens.find? (·.kind = .number)).bind fun digits =>
      (magnitude? digits.value.toList).bind
        (signedWord? (tree.tokens.any (·.kind = .minus)))
  else none

def stringValue? (tree : Tree) : Option String :=
  if tree.kind? = some .string then (contentValue? tree.tokens).map String.ofList else none

/-- The letter of a char node: what stands behind the first quote. -/
def charValue? (tree : Tree) : Option Char :=
  if tree.kind? = some .char then
    (tree.tokens.find? (·.kind = .char)).bind fun token => token.value.toList[1]?
  else none

end Tree

end HslTree
