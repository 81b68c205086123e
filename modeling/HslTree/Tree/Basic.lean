import HslTree.Token.Basic

/-! Concrete syntax trees. A tree keeps every token it covers, blanks and comments included, so
its leaves spell its source. -/

namespace HslTree

/-- What a node stands for in the grammar. -/
inductive NodeKind
  | sourceFile
  | externBlock
  | function
  | variadic
  | statement
  | call
  | declaration
  | expression
  | literal
  | integer
  | string
  | char
  | bool
deriving DecidableEq, Repr

def NodeKind.name : NodeKind → String
  | sourceFile => "source_file"
  | externBlock => "extern_definition"
  | function => "function_definition"
  | variadic => "variadic"
  | statement => "statement"
  | call => "function_call"
  | declaration => "declaration"
  | expression => "expression"
  | literal => "literal"
  | integer => "integer"
  | string => "string"
  | char => "char"
  | bool => "bool"

/-- The roles a child can have in its node. -/
inductive Field
  | name
  | variadic
deriving DecidableEq, Repr

def Field.label : Field → String
  | name => "name"
  | variadic => "variadic"

/-- A token, or a node with its children in source order. The fields of a node name some of its
children by their index. -/
inductive Tree
  | leaf (token : Token)
  | node (kind : NodeKind) (children : List Tree) (fields : List (Field × Nat)) (span : Span)
deriving Repr

namespace Tree

mutual

def decEq : (s t : Tree) → Decidable (s = t)
  | leaf a, leaf b => decidable_of_iff (a = b) (by simp)
  | leaf _, node .. => isFalse (by simp)
  | node .., leaf _ => isFalse (by simp)
  | node k cs fs sp, node k' cs' fs' sp' =>
    have := decEqList cs cs'
    decidable_of_iff (k = k' ∧ cs = cs' ∧ fs = fs' ∧ sp = sp') (by simp)

def decEqList : (ss ts : List Tree) → Decidable (ss = ts)
  | [], [] => isTrue rfl
  | [], _ :: _ => isFalse (by simp)
  | _ :: _, [] => isFalse (by simp)
  | s :: ss, t :: ts =>
    have := decEq s t
    have := decEqList ss ts
    decidable_of_iff (s = t ∧ ss = ts) (by simp)

end

instance : DecidableEq Tree := decEq

def span : Tree → Span
  | leaf token => token.span
  | node _ _ _ span => span

def kind? : Tree → Option NodeKind
  | leaf _ => none
  | node kind .. => some kind

def children : Tree → List Tree
  | leaf _ => []
  | node _ children _ _ => children

def fields : Tree → List (Field × Nat)
  | leaf _ => []
  | node _ _ fields _ => fields

def isNode (tree : Tree) : Bool := tree.kind?.isSome

def isExtra : Tree → Bool
  | leaf token => token.isExtra
  | node .. => false

mutual

/-- The tokens of a tree in source order. -/
def tokens : Tree → List Token
  | leaf token => [token]
  | node _ children _ _ => tokensOf children

def tokensOf : List Tree → List Token
  | [] => []
  | tree :: rest => tree.tokens ++ tokensOf rest

end

@[simp]
theorem tokensOf_append (ss ts : List Tree) : tokensOf (ss ++ ts) = tokensOf ss ++ tokensOf ts := by
  induction ss with
  | nil => rfl
  | cons s ss ih => simp [tokensOf, ih, List.append_assoc]

/-- The source text of a tree. -/
def text (tree : Tree) : String := String.join (tree.tokens.map (·.value))

mutual

/-- The nodes of a tree, each in front of those below it. -/
def nodes : Tree → List Tree
  | leaf _ => []
  | node kind children fields span => node kind children fields span :: nodesOf children

def nodesOf : List Tree → List Tree
  | [] => []
  | tree :: rest => tree.nodes ++ nodesOf rest

end

end Tree

end HslTree
