import HslTree.Tree.View

/-! Trees as S-expressions. Only nodes and the tokens that carry a text of their own are shown;
keywords, quotes, signs and blanks are left out. -/

namespace HslTree

def Kind.isVisible : Kind → Bool
  | identifier | number | char | content | escape | comment => true
  | _ => false

namespace Tree

def isVisible : Tree → Bool
  | leaf token => token.kind.isVisible
  | node .. => true

def fieldLabel (fields : List (Field × Nat)) (index : Nat) : String :=
  match fields.find? (·.2 = index) with
  | some (field, _) => field.label ++ ": "
  | none => ""

mutual

/-- A tree as `(kind field: (child) ...)`. -/
def sexp : Tree → String
  | leaf token => "(" ++ token.kind.label ++ ")"
  | node kind children fields _ => "(" ++ kind.name ++ sexpItems fields 0 children ++ ")"

/-- The children from an index on, each with a space in front of it. -/
def sexpItems (fields : List (Field × Nat)) : Nat → List Tree → String
  | _, [] => ""
  | index, tree :: rest =>
    if tree.isVisible then
      " " ++ fieldLabel fields index ++ tree.sexp ++ sexpItems fields (index + 1) rest
    else sexpItems fields (index + 1) rest

end

end Tree

end HslTree
