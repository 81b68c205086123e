import HslTree.Span
import HslTree.Text.Bytes
import HslTree.Text.Quoted
import HslTree.Token.Kind

/-! Tokens: pieces of source text with a kind and a place. -/

namespace HslTree

structure Token where
  kind : Kind
  value : String
  span : Span
deriving DecidableEq, Repr

namespace Token

def isExtra (token : Token) : Bool := token.kind.isExtra

/-- The mark that closes a token list. -/
def endAt (position : Position) : Token := ⟨.endOfInput, "", .empty position⟩

def display (token : Token) : String :=
  "Token \x7b\nkind: " ++ token.kind.display ++ ",\nvalue: " ++ quoted token.value ++ "\x7d"

end Token

end HslTree
