import HslTree.Token.Kind

/-! The rules of the grammar, and the tables that choose among them by the current token. -/

namespace HslTree

inductive Rule
  | externBlock
  | function
  | variadic
  | statement
  | declaration
  | call
  | expression
  | literal
  | integer
  | string
  | char
  | bool
deriving DecidableEq, Repr

/-- Which rule a kind of token opens. -/
abbrev RuleTable := Kind → Option Rule

namespace RuleTable

def empty : RuleTable := fun _ => none

def insert (table : RuleTable) (kind : Kind) (rule : Rule) : RuleTable :=
  fun k => if k = kind then some rule else table k

def keys (table : RuleTable) : List Kind := Kind.all.filter fun k => (table k).isSome

end RuleTable

/-- The choices of the grammar: what stands in a file, in a function, and for a value. -/
structure Grammar where
  definitions : RuleTable
  statements : RuleTable
  literals : RuleTable

namespace Grammar

def empty : Grammar := ⟨.empty, .empty, .empty⟩

def standard : Grammar where
  definitions
    | .externOpen => some .externBlock
    | .functionOpen => some .function
    | _ => none
  statements
    | .callOpen => some .call
    | .declareResistance | .declareForce | .declarePilot => some .declaration
    | _ => none
  literals
    | .minus | .number => some .integer
    | .quote => some .string
    | .char => some .char
    | .pointOfView | .impossible => some .bool
    | _ => none

/-- The kinds that open an expression: an identifier, besides the literals. -/
def expressionStarts (grammar : Grammar) : List Kind := grammar.literals.keys ++ [.identifier]

end Grammar

end HslTree
