import HslTree.Proofs.Regraft

/-! Trees at another place. A derivation tree below a file stays one when all of its offsets are
shifted, and what it is made of does not depend on its place. -/

namespace HslTree

def Position.move (f : UInt32 → UInt32) (position : Position) : Position :=
  ⟨f position.offset, position.file⟩

def Span.move (f : UInt32 → UInt32) (span : Span) : Span := ⟨span.start.move f, span.stop.move f⟩

def Token.move (f : UInt32 → UInt32) (token : Token) : Token :=
  { token with span := token.span.move f }

namespace Tree

mutual

/-- The tree with every offset in it changed, those of its tokens and those of its nodes. -/
def move (f : UInt32 → UInt32) : Tree → Tree
  | leaf token => leaf (token.move f)
  | node kind children fields span => node kind (moveAll f children) fields (span.move f)

def moveAll (f : UInt32 → UInt32) : List Tree → List Tree
  | [] => []
  | tree :: rest => tree.move f :: moveAll f rest

end

theorem moveAll_eq_map (f : UInt32 → UInt32) (cs : List Tree) : moveAll f cs = cs.map (move f) := by
  induction cs with
  | nil => rfl
  | cons c cs ih => rw [moveAll, ih, List.map_cons]

mutual

theorem tokens_move (f : UInt32 → UInt32) :
    ∀ tree : Tree, (tree.move f).tokens = tree.tokens.map (Token.move f)
  | leaf token => rfl
  | node kind children fields span => by rw [move, tokens, tokens, tokensOf_moveAll f children]

theorem tokensOf_moveAll (f : UInt32 → UInt32) :
    ∀ cs : List Tree, tokensOf (moveAll f cs) = (tokensOf cs).map (Token.move f)
  | [] => rfl
  | c :: cs => by
    rw [moveAll, tokensOf, tokensOf, tokens_move f c, tokensOf_moveAll f cs, List.map_append]

end

mutual

/-- Where the places of nodes are left out, moving a tree is a change of its leaves. -/
theorem mapLeaves_move (f : UInt32 → UInt32) :
    ∀ tree : Tree, (tree.move f).mapLeaves id = tree.mapLeaves (Token.move f)
  | leaf token => rfl
  | node kind children fields span => by
    rw [move, mapLeaves, mapLeaves, mapLeavesOf_moveAll f children]

theorem mapLeavesOf_moveAll (f : UInt32 → UInt32) :
    ∀ cs : List Tree, mapLeavesOf id (moveAll f cs) = mapLeavesOf (Token.move f) cs
  | [] => rfl
  | c :: cs => by
    rw [moveAll, mapLeavesOf, mapLeavesOf, mapLeaves_move f c, mapLeavesOf_moveAll f cs]

end

theorem symbol_move (f : UInt32 → UInt32) (tree : Tree) : (tree.move f).symbol = tree.symbol := by
  cases tree <;> rfl

theorem isNode_move (f : UInt32 → UInt32) (tree : Tree) : (tree.move f).isNode = tree.isNode := by
  cases tree <;> rfl

theorem isVisible_move (f : UInt32 → UInt32) (tree : Tree) :
    (tree.move f).isVisible = tree.isVisible := by
  cases tree <;> rfl

theorem span_move (f : UInt32 → UInt32) (tree : Tree) : (tree.move f).span = tree.span.move f := by
  cases tree <;> rfl

theorem sexp_move (f : UInt32 → UInt32) (tree : Tree) : (tree.move f).sexp = tree.sexp := by
  have hid := sexp_mapLeaves (f := id) (fun _ => rfl) (tree.move f)
  have hmove := sexp_mapLeaves (f := Token.move f) (fun _ => rfl) tree
  rw [← hid, mapLeaves_move, hmove]

end Tree

section Derivation

variable {file : String} {f : UInt32 → UInt32}

theorem map_mapLeaves_move (cs : List Tree) :
    (cs.map (Tree.move f)).map (Tree.mapLeaves id) = cs.map (Tree.mapLeaves (Token.move f)) := by
  simp [Function.comp_def, Tree.mapLeaves_move]

theorem symbols_map_move (cs : List Tree) : symbols (cs.map (Tree.move f)) = symbols cs := by
  have hid := symbols_map_mapLeaves (f := id) (fun _ => rfl) (cs.map (Tree.move f))
  have hmove := symbols_map_mapLeaves (f := Token.move f) (fun _ => rfl) cs
  rw [← hid, map_mapLeaves_move, hmove]

theorem spanOf_map_move {cs : List Tree} (hcs : cs ≠ []) :
    spanOf file (cs.map (Tree.move f)) = (spanOf file cs).move f := by
  obtain ⟨c, rest, rfl⟩ := List.exists_cons_of_ne_nil hcs
  have hlast := List.getLast?_eq_some_getLast hcs
  simp only [spanOf, List.head?_map, List.getLast?_map, List.head?_cons, hlast, Option.map_some,
    Tree.span_move]
  rfl

theorem move_nodeOf {kind : NodeKind} {cs : List Tree} (hcs : cs ≠ []) :
    (nodeOf file kind cs).move f = nodeOf file kind (cs.map (Tree.move f)) := by
  have hid := fieldsFrom_map_mapLeaves (f := id) (fun _ => rfl) kind 0 (cs.map (Tree.move f))
  have hmove := fieldsFrom_map_mapLeaves (f := Token.move f) (fun _ => rfl) kind 0 cs
  rw [map_mapLeaves_move, hmove] at hid
  rw [nodeOf, nodeOf, Tree.move, Tree.moveAll_eq_map, ← hid, spanOf_map_move hcs]

/-- A file without leaves stands at its start, so it alone cannot be moved. -/
theorem Derivation.move {tree : Tree} (h : Derivation file tree)
    (hroot : tree.symbol ≠ .node .sourceFile) (f : UInt32 → UInt32) :
    Derivation file (tree.move f) := by
  induction h with
  | leaf token => exact .leaf _
  | @node kind children _ hsymbols hextras ih =>
    have hne : children ≠ [] := by
      rintro rfl
      exact nil_notMem_production (fun hkind => hroot (congrArg Symbol.node hkind)) hsymbols
    rw [move_nodeOf hne]
    refine .node ?_ (by rwa [symbols_map_move]) ?_
    · intro c hc
      obtain ⟨d, hd, rfl⟩ := List.mem_map.mp hc
      exact ih d hd (symbol_ne_of_mem hsymbols hd)
    · have hid := extrasFit_map_mapLeaves (f := id) (fun _ => rfl) kind (children.map (Tree.move f))
      have hmove := extrasFit_map_mapLeaves (f := Token.move f) (fun _ => rfl) kind children
      rwa [← hid, map_mapLeaves_move, hmove]

end Derivation

section Place

variable (file : String)

theorem Lexeme.move_place (l : Lexeme) (a n : Nat) :
    (l.place file a).move (· + n.toUInt32) = l.place file (a + n) := by
  have hstop : a + n + byteLength l.text = a + byteLength l.text + n := by omega
  simp only [Lexeme.place, Token.move, Span.move, Span.between, Position.move, Position.at, hstop,
    Nat.toUInt32_eq, UInt32.ofNat_add]

theorem map_move_placeAll (a n : Nat) (ls : List Lexeme) :
    (placeAll file a ls).map (Token.move (· + n.toUInt32)) = placeAll file (a + n) ls := by
  induction ls generalizing a with
  | nil => rfl
  | cons l ls ih =>
    have hnext : a + n + byteLength l.text = a + byteLength l.text + n := by omega
    rw [placeAll, placeAll, List.map_cons, l.move_place file, ih, hnext]

theorem map_move_back_placeAll (n : Nat) (ls : List Lexeme) :
    (placeAll file n ls).map (Token.move (· - n.toUInt32)) = placeAll file 0 ls := by
  have hshift := map_move_placeAll file 0 n ls
  have hback : (fun t : Token => (t.move (· + n.toUInt32)).move (· - n.toUInt32)) = id := by
    funext t
    simp [Token.move, Span.move, Position.move]
  rw [Nat.zero_add] at hshift
  rw [← hshift, List.map_map]
  exact (congrArg (List.map · _) hback).trans (List.map_id _)

end Place

end HslTree
