import HslTree.Tree.Basic

/-! Looking into trees: children by role, and what a statement, an expression or a literal is. -/

namespace HslTree

namespace Tree

/-- The children named by a field, in the order in which they were named. -/
def childrenNamed (tree : Tree) (field : Field) : List Tree :=
  (tree.fields.filter (·.1 = field)).filterMap fun (_, index) => tree.children[index]?

def childNamed? (tree : Tree) (field : Field) : Option Tree := (tree.childrenNamed field).head?

def fieldAt? (tree : Tree) (index : Nat) : Option Field :=
  (tree.fields.find? (·.2 = index)).map (·.1)

def childNodes (tree : Tree) : List Tree := tree.children.filter isNode

def significantChildren (tree : Tree) : List Tree := tree.children.filter (!·.isExtra)

end Tree

inductive StatementView
  | call (node : Tree)
  | declaration (node : Tree)
deriving DecidableEq, Repr

inductive ExpressionView
  | identifier (token : Token)
  | literal (node : Tree)
deriving DecidableEq, Repr

inductive LiteralView
  | integer (node : Tree)
  | string (node : Tree)
  | char (node : Tree)
  | bool (node : Tree)
deriving DecidableEq, Repr

namespace Tree

/-- What a statement node says: its first child node decides. -/
def statement? (tree : Tree) : Option StatementView :=
  if tree.kind? = some .statement then
    tree.childNodes.head?.bind fun inner =>
      match inner.kind? with
      | some .call => some (.call inner)
      | some .declaration => some (.declaration inner)
      | _ => none
  else none

/-- What an expression node says: its first child that is no extra decides. -/
def expression? (tree : Tree) : Option ExpressionView :=
  if tree.kind? = some .expression then
    tree.significantChildren.head?.bind fun
      | leaf token => if token.kind = .identifier then some (.identifier token) else none
      | node kind children fields span =>
        if kind = .literal then some (.literal (node kind children fields span)) else none
  else none

def literal? (tree : Tree) : Option LiteralView :=
  if tree.kind? = some .literal then
    tree.childNodes.head?.bind fun inner =>
      match inner.kind? with
      | some .integer => some (.integer inner)
      | some .string => some (.string inner)
      | some .char => some (.char inner)
      | some .bool => some (.bool inner)
      | _ => none
  else none

end Tree

end HslTree
