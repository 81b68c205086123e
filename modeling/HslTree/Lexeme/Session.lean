import HslTree.Lexeme.Lexicon

/-! Sessions: a source that is read in several goes, with a cursor that can be moved by hand in
between. -/

namespace HslTree

/-- The cursor counts bytes of the source; `tokens` are those read so far, oldest first. -/
structure Session where
  lexicon : Lexicon
  source : String
  file : String
  cursor : Nat
  tokens : List Token

namespace Session

def start (lexicon : Lexicon) (source file : String) : Session := ⟨lexicon, source, file, 0, []⟩

/-- The text behind the cursor. There is none if the cursor stands beyond the end of the source or
inside a character. -/
def unread? (session : Session) : Option (List Char) :=
  (splitAtByte? session.cursor session.source.toList).map (·.2)

def atEnd (session : Session) : Bool := byteLength session.source.toList ≤ session.cursor

def skip (session : Session) (n : Nat) : Session := { session with cursor := session.cursor + n }

def push (session : Session) (token : Token) : Session :=
  { session with tokens := session.tokens ++ [token] }

def tokensClosedAt (session : Session) (offset : Nat) : List Token :=
  session.tokens ++ [.endAt (.at session.file offset)]

/-- Reads on from the cursor to the end of the source or to the first fault, and keeps what was
read in either case. It cannot read from a cursor inside a character; at the end of the source it
adds one more end mark, wherever beyond the end the cursor stands. -/
def run? (session : Session) : Option (Session × Option Diagnostic) :=
  if session.atEnd then
    some ({ session with tokens := session.tokensClosedAt session.cursor }, none)
  else
    session.unread?.map fun text =>
      let run := session.lexicon.readAt session.file session.cursor text
      ({ session with cursor := run.stop, tokens := session.tokens ++ run.tokens }, run.diagnostic?)

end Session

end HslTree
