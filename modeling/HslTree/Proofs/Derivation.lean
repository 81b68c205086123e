import Mathlib
import HslTree.Tree.View

/-! Derivation trees of the grammar, said without the parser. The productions are regular languages
over the children of a node that are no extras; extras stand inside a node, never at its ends. -/

namespace HslTree

open scoped Computability

inductive Symbol
  | token (kind : Kind)
  | node (kind : NodeKind)
deriving DecidableEq

def Tree.symbol : Tree → Symbol
  | leaf token => .token token.kind
  | node kind .. => .node kind

def symbols (children : List Tree) : List Symbol :=
  (children.filter (!·.isExtra)).map Tree.symbol

def aToken (kind : Kind) : Language Symbol := {[.token kind]}

def aNode (kind : NodeKind) : Language Symbol := {[.node kind]}

/-- The right-hand sides of the grammar. -/
def production : NodeKind → Language Symbol
  | .sourceFile => (aNode .externBlock + aNode .function)∗
  | .externBlock =>
    aToken .externOpen * (aToken .identifier * (1 + aNode .variadic))∗ * aToken .externClose
  | .function =>
    aToken .functionOpen * aToken .identifier * aToken .functionMiddle * (1 + aNode .variadic) *
      (aNode .statement)∗ * aToken .functionClose
  | .variadic => aToken .variadic * aToken .number
  | .statement => aNode .call + aNode .declaration
  | .call => aToken .callOpen * aToken .identifier * (aNode .expression)∗ * aToken .callClose
  | .declaration =>
    (aToken .declareResistance + aToken .declareForce + aToken .declarePilot) *
      aToken .identifier * (aToken .assignFather + aToken .assignJudge) * aNode .expression
  | .expression => aToken .identifier + aNode .literal
  | .literal => aNode .integer + aNode .string + aNode .char + aNode .bool
  | .integer => (1 + aToken .minus) * aToken .number
  | .string => aToken .quote * (aToken .content + aToken .escape)∗ * aToken .quote
  | .char => aToken .char
  | .bool => aToken .pointOfView + aToken .impossible

/-- Nodes that are written without a gap. -/
def NodeKind.isTight : NodeKind → Bool
  | integer | string => true
  | _ => false

theorem NodeKind.not_tight {kind : NodeKind} {P : Prop} (h : kind.isTight = false)
    (htight : kind.isTight = true) : P :=
  absurd (h.symm.trans htight) Bool.false_ne_true

/-- Where extras may stand among the children of a node: anywhere in a file, not at all in a node
without gaps, and between two other children in the rest. -/
structure ExtrasFit (kind : NodeKind) (children : List Tree) : Prop where
  first : kind ≠ .sourceFile → ∀ c ∈ children.head?, c.isExtra = false
  last : kind ≠ .sourceFile → ∀ c ∈ children.getLast?, c.isExtra = false
  tight : kind.isTight = true → ∀ c ∈ children, c.isExtra = false

def roleOf : NodeKind → Kind → Option Field
  | .externBlock, .identifier | .function, .identifier | .call, .identifier => some .name
  | .variadic, .number => some .variadic
  | _, _ => none

def Tree.role (kind : NodeKind) : Tree → Option Field
  | leaf token => roleOf kind token.kind
  | node .. => none

/-- The fields of a node whose children are counted from an index on. -/
def fieldsFrom (kind : NodeKind) : Nat → List Tree → List (Field × Nat)
  | _, [] => []
  | index, c :: cs => ((c.role kind).map (·, index)).toList ++ fieldsFrom kind (index + 1) cs

/-- From the first child to the last; a file without children sits at its start. -/
def spanOf (file : String) (children : List Tree) : Span :=
  match children.head?, children.getLast? with
  | some first, some last => ⟨first.span.start, last.span.stop⟩
  | _, _ => .empty (.at file 0)

def nodeOf (file : String) (kind : NodeKind) (children : List Tree) : Tree :=
  .node kind children (fieldsFrom kind 0 children) (spanOf file children)

/-- Trees all of whose nodes are built by a production. -/
inductive Derivation (file : String) : Tree → Prop
  | leaf (token : Token) : Derivation file (.leaf token)
  | node {kind : NodeKind} {children : List Tree} (hchildren : ∀ c ∈ children, Derivation file c)
      (hsymbols : symbols children ∈ production kind) (hextras : ExtrasFit kind children) :
      Derivation file (nodeOf file kind children)

@[simp]
theorem mem_aToken {k : Kind} {w : List Symbol} : w ∈ aToken k ↔ w = [.token k] := Iff.rfl

@[simp]
theorem mem_aNode {k : NodeKind} {w : List Symbol} : w ∈ aNode k ↔ w = [.node k] := Iff.rfl

theorem nil_notMem_production {kind : NodeKind} (hkind : kind ≠ .sourceFile) :
    [] ∉ production kind := by
  cases kind <;>
    simp_all [production, Language.mem_mul, Language.mem_add, -add_eq_sup]

theorem Tree.isExtra_of_symbol {tree : Tree} {kind : NodeKind} (h : tree.symbol = .node kind) :
    tree.isExtra = false := by
  cases tree with
  | leaf => cases h
  | node => rfl

@[simp]
theorem symbols_nil : symbols [] = [] := rfl

@[simp]
theorem symbols_append (cs ds : List Tree) : symbols (cs ++ ds) = symbols cs ++ symbols ds := by
  simp [symbols]

theorem symbols_cons {c : Tree} (hc : c.isExtra = false) (cs : List Tree) :
    symbols (c :: cs) = c.symbol :: symbols cs := by simp [symbols, hc]

theorem symbols_eq_nil_iff {cs : List Tree} : symbols cs = [] ↔ ∀ c ∈ cs, c.isExtra = true := by
  simp [symbols]

theorem symbols_eq_cons {cs : List Tree} {a : Symbol} {rest : List Symbol}
    (h : symbols cs = a :: rest) :
    ∃ gap c tail, cs = gap ++ c :: tail ∧ symbols gap = [] ∧ c.isExtra = false ∧
      c.symbol = a ∧ symbols tail = rest := by
  obtain ⟨c, others, hfilter, hc, hothers⟩ := List.map_eq_cons_iff.mp h
  obtain ⟨gap, tail, hcs, hgap, hplain, htail⟩ := List.filter_eq_cons_iff.mp hfilter
  refine ⟨gap, c, tail, hcs, ?_, by simpa using hplain, hc, by rw [symbols, htail, hothers]⟩
  rw [symbols_eq_nil_iff]
  intro e he
  simpa using hgap e he

theorem ExtrasFit.of_none {kind : NodeKind} {cs : List Tree} (h : ∀ c ∈ cs, c.isExtra = false) :
    ExtrasFit kind cs where
  first _ c hc := h c (List.mem_of_mem_head? hc)
  last _ c hc := h c (List.mem_of_getLast? hc)
  tight _ := h

theorem ExtrasFit.append {kind : NodeKind} {children gap : List Tree} {c : Tree}
    (h : ExtrasFit kind children) (hstart : kind ≠ .sourceFile → children = [] → gap = [])
    (hc : c.isExtra = false) (htight : kind.isTight = true → gap = []) :
    ExtrasFit kind (children ++ (gap ++ [c])) where
  first := by
    intro hkind d hd
    cases children with
    | nil =>
      have hdc : c = d := by simpa [hstart hkind rfl] using hd
      exact hdc ▸ hc
    | cons e es => exact h.first hkind d hd
  last := by
    intro _ d hd
    have hdc : c = d := by simpa [← List.append_assoc] using hd
    exact hdc ▸ hc
  tight := by
    intro hkind d hd
    simp only [htight hkind, List.nil_append, List.mem_append, List.mem_singleton] at hd
    rcases hd with hd | rfl
    · exact h.tight hkind d hd
    · exact hc

theorem fieldsFrom_append (kind : NodeKind) (index : Nat) (cs ds : List Tree) :
    fieldsFrom kind index (cs ++ ds) =
      fieldsFrom kind index cs ++ fieldsFrom kind (index + cs.length) ds := by
  induction cs generalizing index with
  | nil => simp [fieldsFrom]
  | cons c cs ih => simp [fieldsFrom, ih, Nat.add_assoc, Nat.add_comm 1]

theorem roleOf_extra {kind : NodeKind} {k : Kind} (hk : k.isExtra = true) :
    roleOf kind k = none := by
  cases k <;> simp [Kind.isExtra] at hk <;> cases kind <;> rfl

theorem fieldsFrom_extras (kind : NodeKind) (index : Nat) {gap : List Tree}
    (hgap : symbols gap = []) : fieldsFrom kind index gap = [] := by
  rw [symbols_eq_nil_iff] at hgap
  induction gap generalizing index with
  | nil => rfl
  | cons c gap ih =>
    have hc := hgap c (by simp)
    cases c with
    | leaf token =>
      have hrole : roleOf kind token.kind = none := roleOf_extra hc
      simp [fieldsFrom, Tree.role, hrole, ih _ (fun e he => hgap e (by simp [he]))]
    | node => simp [Tree.isExtra] at hc

end HslTree
