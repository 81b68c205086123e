/-! Kinds of tokens, and the phrases that are the language's keywords. -/

namespace HslTree

/-- What a token is. The order of the constructors is the order in which sets of kinds are
listed. -/
inductive Kind
  | endOfInput
  | blank
  | comment
  | externOpen
  | externClose
  | functionOpen
  | functionMiddle
  | functionClose
  | variadic
  | callOpen
  | callClose
  | declareResistance
  | declareForce
  | declarePilot
  | assignFather
  | assignJudge
  | pointOfView
  | impossible
  | identifier
  | number
  | minus
  | char
  | quote
  | content
  | escape
deriving DecidableEq, Repr

namespace Kind

def all : List Kind :=
  [endOfInput, blank, comment, externOpen, externClose, functionOpen, functionMiddle,
   functionClose, variadic, callOpen, callClose, declareResistance, declareForce, declarePilot,
   assignFather, assignJudge, pointOfView, impossible, identifier, number, minus, char, quote,
   content, escape]

theorem mem_all (k : Kind) : k ∈ all := by cases k <;> decide

def sorted (ks : List Kind) : List Kind := all.filter (· ∈ ks)

/-- The kinds of a list in order, as often as they occur. -/
def arranged (ks : List Kind) : List Kind := all.flatMap fun k => ks.filter (· = k)

/-- Blanks and comments take no part in the grammar, which allows them everywhere but behind a minus
and in a string. -/
def isExtra : Kind → Bool
  | blank | comment => true
  | _ => false

def name : Kind → String
  | endOfInput => "EOF"
  | blank => "Whitespace"
  | comment => "LineComment"
  | externOpen => "ExternOpen"
  | externClose => "ExternClose"
  | functionOpen => "FuncOpen"
  | functionMiddle => "FuncMid"
  | functionClose => "FuncClose"
  | variadic => "Variadic"
  | callOpen => "CallOpen"
  | callClose => "CallClose"
  | declareResistance => "DeclIntroResistance"
  | declareForce => "DeclIntroForce"
  | declarePilot => "DeclIntroPilot"
  | assignFather => "AssignFather"
  | assignJudge => "AssignJudge"
  | pointOfView => "BoolPointOfView"
  | impossible => "BoolImpossible"
  | identifier => "Identifier"
  | number => "UnsignedInteger"
  | minus => "Minus"
  | char => "CharLiteral"
  | quote => "StringQuote"
  | content => "StringContent"
  | escape => "EscapeSequence"

def ofName? (text : String) : Option Kind := all.find? (·.name = text)

end Kind

structure Phrase where
  words : String
  kind : Kind
deriving DecidableEq, Repr

namespace Phrase

/-- The keywords of the language, in the order in which they are tried. -/
def all : List Phrase :=
  [⟨"Hypersignal", .externOpen⟩,
   ⟨"Jamsignal", .externClose⟩,
   ⟨"A long time ago in a", .functionOpen⟩,
   ⟨"far, far away...", .functionMiddle⟩,
   ⟨"May the force be with you.", .functionClose⟩,
   ⟨"Starfield", .variadic⟩,
   ⟨"Execute order", .callOpen⟩,
   ⟨"Order executed", .callClose⟩,
   ⟨"I am a big deal in the resistance.", .declareResistance⟩,
   ⟨"The force is strong with this one.", .declareForce⟩,
   ⟨"That's one hell of a pilot.", .declarePilot⟩,
   ⟨"I am your father.", .assignFather⟩,
   ⟨"Judge me by my size, do you ?", .assignJudge⟩,
   ⟨"From a certain point of view.", .pointOfView⟩,
   ⟨"That's impossible!", .impossible⟩]

end Phrase

namespace Kind

def phrase? (kind : Kind) : Option String :=
  (Phrase.all.find? (·.kind = kind)).map (·.words)

def phraseIndex? (kind : Kind) : Option Nat := Phrase.all.findIdx? (·.kind = kind)

/-- The label of a kind in a rendered tree: keywords are labelled by their words. -/
def label (kind : Kind) : String :=
  match kind with
  | endOfInput => "end"
  | blank => "whitespace"
  | comment => "line_comment"
  | identifier => "identifier"
  | number => "unsigned_integer"
  | minus => "-"
  | char => "char_literal"
  | quote => "\""
  | content => "string_content"
  | escape => "escape_sequence"
  | _ => kind.phrase?.getD "?"

def display (kind : Kind) : String :=
  match kind.phrase? with
  | some words => "`" ++ words ++ "`"
  | none => kind.name

end Kind

end HslTree
