import HslTree.Proofs.Lossless
import HslTree.Proofs.RuleLayout
import HslTree.Tree.Sexp

/-! Other leaves on the same tree. The grammar looks at the kinds of leaves alone, so a derivation
tree stays one when its leaves give way to others of the same kinds. -/

namespace HslTree

namespace Tree

mutual

/-- The tree with its leaves changed. The places of its nodes are left out. -/
def mapLeaves (f : Token → Token) : Tree → Tree
  | leaf token => leaf (f token)
  | node kind children fields _ => node kind (mapLeavesOf f children) fields (.empty (.at "" 0))

def mapLeavesOf (f : Token → Token) : List Tree → List Tree
  | [] => []
  | tree :: rest => tree.mapLeaves f :: mapLeavesOf f rest

end

theorem mapLeavesOf_eq_map (f : Token → Token) (cs : List Tree) :
    mapLeavesOf f cs = cs.map (mapLeaves f) := by
  induction cs with
  | nil => rfl
  | cons c cs ih => rw [mapLeavesOf, ih, List.map_cons]

section Kinds

variable {f : Token → Token} (hf : ∀ t, (f t).kind = t.kind)
include hf

theorem symbol_mapLeaves (tree : Tree) : (tree.mapLeaves f).symbol = tree.symbol := by
  cases tree <;> simp [mapLeaves, symbol, hf]

theorem isExtra_mapLeaves (tree : Tree) : (tree.mapLeaves f).isExtra = tree.isExtra := by
  cases tree <;> simp [mapLeaves, isExtra, Token.isExtra, hf]

theorem role_mapLeaves (kind : NodeKind) (tree : Tree) :
    (tree.mapLeaves f).role kind = tree.role kind := by
  cases tree <;> simp [mapLeaves, role, hf]

theorem isVisible_mapLeaves (tree : Tree) : (tree.mapLeaves f).isVisible = tree.isVisible := by
  cases tree <;> simp [mapLeaves, isVisible, hf]

mutual

theorem sexp_mapLeaves : ∀ tree : Tree, (tree.mapLeaves f).sexp = tree.sexp
  | leaf token => by rw [mapLeaves, sexp, sexp, hf]
  | node kind children fields span => by
    rw [mapLeaves, sexp, sexp, sexpItems_mapLeavesOf fields 0 children]

theorem sexpItems_mapLeavesOf (fields : List (Field × Nat)) (index : Nat) :
    ∀ cs : List Tree, sexpItems fields index (mapLeavesOf f cs) = sexpItems fields index cs
  | [] => rfl
  | c :: cs => by
    rw [mapLeavesOf, sexpItems, sexpItems, isVisible_mapLeaves hf, sexp_mapLeaves c,
      sexpItems_mapLeavesOf fields (index + 1) cs]

end

end Kinds

end Tree

section Regraft

variable {file : String} {f : Token → Token}

theorem symbols_map_mapLeaves (hf : ∀ t, (f t).kind = t.kind) (cs : List Tree) :
    symbols (cs.map (Tree.mapLeaves f)) = symbols cs := by
  induction cs with
  | nil => rfl
  | cons c cs ih =>
    by_cases hc : c.isExtra = true
    · simpa [symbols, Tree.isExtra_mapLeaves hf, hc] using ih
    · simpa [symbols, Tree.isExtra_mapLeaves hf, hc, Tree.symbol_mapLeaves hf] using ih

theorem fieldsFrom_map_mapLeaves (hf : ∀ t, (f t).kind = t.kind) (kind : NodeKind) (index : Nat)
    (cs : List Tree) : fieldsFrom kind index (cs.map (Tree.mapLeaves f)) =
      fieldsFrom kind index cs := by
  induction cs generalizing index with
  | nil => rfl
  | cons c cs ih => simp [fieldsFrom, Tree.role_mapLeaves hf, ih]

theorem extrasFit_map_mapLeaves (hf : ∀ t, (f t).kind = t.kind) (kind : NodeKind)
    (cs : List Tree) : ExtrasFit kind (cs.map (Tree.mapLeaves f)) ↔ ExtrasFit kind cs := by
  have hextra := Tree.isExtra_mapLeaves hf
  constructor <;>
  · rintro ⟨hfirst, hlast, htight⟩
    exact ⟨by simpa [hextra] using hfirst, by simpa [hextra] using hlast,
      by simpa [hextra] using htight⟩

theorem regraft_children {cs : List Tree}
    (hcs : ∀ c ∈ cs, ∀ ts, ts.map f = c.tokens.map f →
      ∃ c', Derivation file c' ∧ c'.tokens = ts ∧ c'.mapLeaves f = c.mapLeaves f)
    {ts : List Token} (hts : ts.map f = (Tree.tokensOf cs).map f) :
    ∃ cs', (∀ c ∈ cs', Derivation file c) ∧ Tree.tokensOf cs' = ts ∧
      cs'.map (Tree.mapLeaves f) = cs.map (Tree.mapLeaves f) := by
  induction cs generalizing ts with
  | nil =>
    obtain rfl : ts = [] := by simpa [Tree.tokensOf] using hts
    exact ⟨[], by simp, rfl, rfl⟩
  | cons c cs ih =>
    rw [Tree.tokensOf, List.map_append] at hts
    obtain ⟨us, vs, rfl, hus, hvs⟩ := List.map_eq_append_iff.mp hts
    obtain ⟨c', hderived, htokens, hc'⟩ := hcs c (by simp) us hus
    obtain ⟨cs', hderived', htokens', hcs'⟩ := ih (fun d hd => hcs d (by simp [hd])) hvs
    refine ⟨c' :: cs', ?_, by rw [Tree.tokensOf, htokens, htokens'], by simp [hc', hcs']⟩
    intro d hd
    rcases List.mem_cons.mp hd with rfl | hd
    · exact hderived
    · exact hderived' d hd

/-- Leaves that cannot be told apart from those of a tree make the same tree. -/
theorem Derivation.regraft (hf : ∀ t, (f t).kind = t.kind) {tree : Tree}
    (h : Derivation file tree) {ts : List Token} (hts : ts.map f = tree.tokens.map f) :
    ∃ tree', Derivation file tree' ∧ tree'.tokens = ts ∧ tree'.mapLeaves f = tree.mapLeaves f := by
  induction h generalizing ts with
  | leaf token =>
    obtain ⟨t, rfl, ht⟩ := List.map_eq_singleton_iff.mp hts
    exact ⟨.leaf t, .leaf t, rfl, congrArg Tree.leaf ht⟩
  | @node kind children _ hsymbols hextras ih =>
    obtain ⟨cs, hderived, htokens, hcs⟩ := regraft_children (fun c hc _ => ih c hc) hts
    have hsymbols' : symbols cs = symbols children := by
      rw [← symbols_map_mapLeaves hf, hcs, symbols_map_mapLeaves hf]
    have hextras' : ExtrasFit kind cs := by
      rwa [← extrasFit_map_mapLeaves hf, hcs, extrasFit_map_mapLeaves hf]
    have hfields : fieldsFrom kind 0 cs = fieldsFrom kind 0 children := by
      rw [← fieldsFrom_map_mapLeaves hf, hcs, fieldsFrom_map_mapLeaves hf]
    refine ⟨nodeOf file kind cs, .node hderived (hsymbols' ▸ hsymbols) hextras', htokens, ?_⟩
    simp only [nodeOf, Tree.mapLeaves, Tree.mapLeavesOf_eq_map, hcs, hfields]

end Regraft

theorem Lexicon.readTree_of_derives {text : List Char} {ls : List Lexeme}
    (hread : standard.read text = ⟨ls, [], none⟩) {label? : Option String} {tree : Tree}
    (h : Derives (label?.getD defaultLabel) tree (placeAll (label?.getD defaultLabel) 0 ls)) :
    standard.readTree (String.ofList text) label? = .ok tree := by
  have hfault : (standard.read text).fault? = none := by rw [hread]
  have hrun := readAt_of_none (label?.getD defaultLabel) 0 hfault
  rw [readTree, String.toList_ofList, hrun]
  apply Derives.parseTokens
  rwa [body_append_end placeAll_read_marks rfl [], hread]

/-- A source whose lexemes are those of a derivation tree is read as this tree. -/
theorem Lexicon.readTree_of_lexemes {text : List Char} {ls : List Lexeme}
    (hread : standard.read text = ⟨ls, [], none⟩) {f : Token → Token}
    (hf : ∀ t, (f t).kind = t.kind) {label? : Option String} {tree : Tree}
    (hderivation : Derivation (label?.getD defaultLabel) tree)
    (hroot : tree.symbol = .node .sourceFile)
    (htokens : (placeAll (label?.getD defaultLabel) 0 ls).map f = tree.tokens.map f) :
    ∃ tree', standard.readTree (String.ofList text) label? = .ok tree' ∧
      tree'.mapLeaves f = tree.mapLeaves f := by
  obtain ⟨tree', hderivation', htokens', hleaves⟩ := hderivation.regraft hf htokens
  refine ⟨tree', readTree_of_derives hread ⟨hderivation', ?_, htokens'⟩, hleaves⟩
  rw [← Tree.symbol_mapLeaves hf, hleaves, Tree.symbol_mapLeaves hf, hroot]

end HslTree
