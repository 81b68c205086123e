import HslTree.Lexeme.StringLiteral
import HslTree.Text.Blank
import HslTree.Text.WordChar

/-! Patterns: the forms a token can have, tried in order at each point of a text. -/

namespace HslTree

inductive Pattern
  | blank
  | comment
  | phrase (phrase : Phrase)
  | identifier
  | number
  | minus
  | char
  | string
deriving DecidableEq, Repr

def Pattern.kind : Pattern → Kind
  | blank => .blank
  | comment => .comment
  | phrase p => p.kind
  | identifier => .identifier
  | number => .number
  | minus => .minus
  | char => .char
  | string => .quote

/-- A lexicon says which patterns are tried in which order, which characters a phrase that ends in
a letter must not run into, and how plain runs of strings are found. -/
structure Lexicon where
  patterns : List Pattern
  isWord : Char → Bool
  scanner : Scanner

def Lexicon.withScanner (scanner : Scanner) : Lexicon where
  patterns :=
    [.blank, .comment] ++ Phrase.all.map .phrase ++ [.identifier, .number, .minus, .char, .string]
  isWord := isWordChar
  scanner := scanner

def Lexicon.standard : Lexicon := .withScanner longestRun

/-- Comments start with a face and run to the end of the line. -/
def commentMark : List Char := "<(-.-)>".toList

def endsLine (c : Char) : Bool := c == '\r' || c == '\n'

def readRun? (kind : Kind) (p : Char → Bool) : List Char → Option Reading
  | c :: rest =>
    if p c then some (.single kind (c :: rest.takeWhile p) (rest.dropWhile p)) else none
  | [] => none

def readComment? (text : List Char) : Option Reading :=
  if commentMark.isPrefixOf text then
    let body := text.drop commentMark.length
    some (.single .comment (commentMark ++ body.takeWhile (!endsLine ·))
      (body.dropWhile (!endsLine ·)))
  else none

/-- Whether a phrase may end in front of a text: its last letter or digit must not run into a
word character. -/
def Phrase.endsBefore (phrase : Phrase) (isWord : Char → Bool) (rest : List Char) : Bool :=
  match phrase.words.toList.getLast?, rest with
  | some last, c :: _ => !(last.isAlphanum && isWord c)
  | _, _ => true

/-- Reads the words of a phrase. A phrase without words is found nowhere. -/
def readPhrase? (isWord : Char → Bool) (phrase : Phrase) (text : List Char) : Option Reading :=
  let words := phrase.words.toList
  let rest := text.drop words.length
  if words ≠ [] ∧ words.isPrefixOf text ∧ phrase.endsBefore isWord rest then
    some (.single phrase.kind words rest)
  else none

def readIdentifier? : List Char → Option Reading
  | c :: rest =>
    if c.isAlpha || c == '_' then
      some (.single .identifier (c :: rest.takeWhile isAsciiWordChar)
        (rest.dropWhile isAsciiWordChar))
    else none
  | [] => none

/-- Reads a number. A number that runs into a word is rejected together with that word. -/
def readNumeral? (text : List Char) : Option Reading :=
  match readNumber? text with
  | some (number, rest) =>
    match rest.takeWhile isAsciiWordChar with
    | [] => some (.single .number number rest)
    | tail => some (.failed (.malformedNumber (String.ofList (number ++ tail))) 0 text)
  | none => none

def readMinus? : List Char → Option Reading
  | '-' :: d :: rest => if d.isDigit then some (.single .minus ['-'] (d :: rest)) else none
  | _ => none

/-- Reads a letter between single quotes. The fault lies behind the quote, or behind the letter
if there is one. -/
def readChar? : List Char → Option Reading
  | '\'' :: rest =>
    match rest with
    | c :: '\'' :: after =>
      if c.isAlpha then some (.single .char ['\'', c, '\''] after)
      else some (charFault rest)
    | _ => some (charFault rest)
  | _ => none
where
  charFault (rest : List Char) : Reading :=
    let distance := match rest with
      | c :: _ => if c.isAlpha then 2 else 1
      | [] => 1
    .failed (.malformedChar (String.ofList ('\'' :: rest.take 2))) distance ('\'' :: rest)

def readString? (scanner : Scanner) : List Char → Option Reading
  | '"' :: rest => some ((readStringBody scanner false rest).after [⟨.quote, ['"']⟩])
  | _ => none

def Pattern.read? (lexicon : Lexicon) : Pattern → List Char → Option Reading
  | blank => readRun? .blank isBlank
  | comment => readComment?
  | phrase p => readPhrase? lexicon.isWord p
  | identifier => readIdentifier?
  | number => readNumeral?
  | minus => readMinus?
  | char => readChar?
  | string => readString? lexicon.scanner

def Lexicon.readNext? (lexicon : Lexicon) (text : List Char) : Option Reading :=
  lexicon.patterns.findSome? (·.read? lexicon text)

end HslTree
