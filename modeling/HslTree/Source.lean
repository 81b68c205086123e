import HslTree.Grammar.Parse
import HslTree.Lexeme.Lexicon

/-! Reading sources: from text to tokens, and from text to a tree. -/

namespace HslTree

def defaultLabel : String := "shell"

namespace Lexicon

def readTokens (lexicon : Lexicon) (source : String) (label? : Option String) :
    Except Diagnostic (List Token) :=
  let run := lexicon.readAt (label?.getD defaultLabel) 0 source.toList
  match run.diagnostic? with
  | none => .ok run.tokens
  | some diagnostic => .error diagnostic

/-- The tree of a source. When a fault stops the reading of tokens, those read before it are still
parsed up to the place of the fault, and a fault of theirs that lies further left is the one
reported. -/
def readTree (lexicon : Lexicon) (source : String) (label? : Option String) :
    Except Diagnostic Tree :=
  let file := label?.getD defaultLabel
  let run := lexicon.readAt file 0 source.toList
  match run.diagnostic? with
  | none => parseTokens file run.tokens
  | some diagnostic =>
    match parseTokens file (run.tokens ++ [.endAt diagnostic.position]) with
    | .error earlier =>
      if earlier.position.offset < diagnostic.position.offset then .error earlier
      else .error diagnostic
    | .ok _ => .error diagnostic

end Lexicon

end HslTree
