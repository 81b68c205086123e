import HslTree.Diagnostic
import HslTree.Token.Basic

/-! Token streams: what a rule has still to read. A stream ends at the first end mark of its token
list, which is never passed. -/

namespace HslTree

/-- The tokens still to be read, none of them an end mark, and the end mark behind them. -/
structure Stream where
  pending : List Token
  last : Token
deriving DecidableEq, Repr

namespace Stream

/-- The end mark of a token list. A list that has none is closed behind its last token. -/
def endMark (file : String) (tokens : List Token) : Token :=
  match tokens.find? (·.kind = .endOfInput), tokens.getLast? with
  | some mark, _ => mark
  | none, some token => .endAt token.span.stop
  | none, none => .endAt (.at file 0)

def ofTokens (file : String) (tokens : List Token) : Stream :=
  ⟨tokens.takeWhile (·.kind ≠ .endOfInput), endMark file tokens⟩

def next (stream : Stream) : Token := stream.pending.head?.getD stream.last

/-- The next token that is no extra. -/
def current (stream : Stream) : Token := (stream.pending.find? (!·.isExtra)).getD stream.last

def position (stream : Stream) : Position := stream.current.span.start

def extras (stream : Stream) : List Token := stream.pending.takeWhile (·.isExtra)

def dropExtras (stream : Stream) : Stream :=
  { stream with pending := stream.pending.dropWhile (·.isExtra) }

end Stream

def Token.unexpected (token : Token) (expected : List Kind) : Diagnostic :=
  ⟨.unexpected (Kind.sorted expected) token.kind token.value, token.span.start⟩

end HslTree
