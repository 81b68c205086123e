import HslTree.Proofs.Regraft
import HslTree.Proofs.Words

/-! Sketches: trees without extras, fields and places. A sketch that the grammar allows is read back
from its words, when each of them stands on a line of its own. -/

namespace HslTree

inductive Sketch
  | leaf (lexeme : Lexeme)
  | node (kind : NodeKind) (parts : List Sketch)

mutual

/-- What is left of a tree without its extras, its fields and its places. -/
def Tree.sketch : Tree → Sketch
  | leaf token => .leaf ⟨token.kind, token.value.toList⟩
  | node kind children _ _ => .node kind (sketchesOf children)

def Tree.sketchesOf : List Tree → List Sketch
  | [] => []
  | tree :: rest => if tree.isExtra then sketchesOf rest else tree.sketch :: sketchesOf rest

end

namespace Sketch

def symbol : Sketch → Symbol
  | leaf lexeme => .token lexeme.kind
  | node kind _ => .node kind

mutual

/-- The words of a sketch. A node without gaps is one word. -/
def words : Sketch → List (List Lexeme)
  | leaf lexeme => [[lexeme]]
  | node kind parts => if kind.isTight then [(wordsOf parts).flatten] else wordsOf parts

def wordsOf : List Sketch → List (List Lexeme)
  | [] => []
  | sketch :: rest => sketch.words ++ wordsOf rest

end

/-- Sketches that can be read: their words are legible, and a production builds each node. -/
inductive Valid : Sketch → Prop
  | leaf {lexeme : Lexeme} (hlegible : Legible [lexeme]) (hextra : lexeme.kind.isExtra = false) :
      Valid (leaf lexeme)
  | word {kind : NodeKind} {word : List Lexeme} (hkind : kind.isTight = true)
      (hlegible : Legible word) (hextras : ∀ l ∈ word, l.kind.isExtra = false)
      (hsymbols : word.map (.token ·.kind) ∈ production kind) : Valid (node kind (word.map leaf))
  | node {kind : NodeKind} {parts : List Sketch} (hkind : kind.isTight = false)
      (hparts : ∀ s ∈ parts, Valid s) (hsymbols : parts.map symbol ∈ production kind) :
      Valid (node kind parts)

theorem wordsOf_append (parts parts' : List Sketch) :
    wordsOf (parts ++ parts') = wordsOf parts ++ wordsOf parts' := by
  induction parts with
  | nil => rfl
  | cons s parts ih => simp [wordsOf, ih]

theorem mem_wordsOf {w : List Lexeme} {parts : List Sketch} (h : w ∈ wordsOf parts) :
    ∃ s ∈ parts, w ∈ s.words := by
  induction parts with
  | nil => cases h
  | cons s parts ih =>
    rcases List.mem_append.mp h with h | h
    · exact ⟨s, by simp, h⟩
    · obtain ⟨t, ht, hw⟩ := ih h
      exact ⟨t, by simp [ht], hw⟩

theorem flatten_wordsOf_leaves (ls : List Lexeme) : (wordsOf (ls.map leaf)).flatten = ls := by
  induction ls with
  | nil => rfl
  | cons l ls ih => simp [wordsOf, words, ih]

section Valid

variable {s : Sketch}

theorem Valid.legible (h : s.Valid) : ∀ w ∈ s.words, Legible w := by
  induction h with
  | leaf hlegible => simpa [words] using hlegible
  | word hkind hlegible => simpa [words, hkind, flatten_wordsOf_leaves] using hlegible
  | node hkind hparts hsymbols ih =>
    intro w hw
    rw [words, if_neg (by simp [hkind])] at hw
    obtain ⟨s, hs, hw⟩ := mem_wordsOf hw
    exact ih s hs w hw

/-- Only a file can be without words. -/
theorem Valid.words_ne_nil (h : s.Valid) (hs : s.symbol ≠ .node .sourceFile) : s.words ≠ [] := by
  induction h with
  | leaf => simp [words]
  | word hkind => simp [words, hkind]
  | @node kind parts hkind hparts hsymbols ih =>
    rw [words, if_neg (by simp [hkind])]
    cases parts with
    | nil =>
      have hfile : kind ≠ .sourceFile := fun h => hs (congrArg Symbol.node h)
      exact absurd hsymbols (nil_notMem_production hfile)
    | cons s parts =>
      have hinner := production_le_inner kind hsymbols
      have hfirst := ih s (by simp) fun h => hinner (by simp [h])
      simp [wordsOf, hfirst]

end Valid

end Sketch

namespace Tree

theorem sketchesOf_append (cs ds : List Tree) :
    sketchesOf (cs ++ ds) = sketchesOf cs ++ sketchesOf ds := by
  induction cs with
  | nil => rfl
  | cons c cs ih => by_cases hc : c.isExtra = true <;> simp [sketchesOf, hc, ih]

theorem sketch_symbol (tree : Tree) : tree.sketch.symbol = tree.symbol := by
  cases tree <;> rfl

theorem symbols_eq_map_sketch (cs : List Tree) :
    symbols cs = (sketchesOf cs).map Sketch.symbol := by
  induction cs with
  | nil => rfl
  | cons c cs ih =>
    by_cases hc : c.isExtra = true
    · simpa [symbols, sketchesOf, hc] using ih
    · simpa [symbols, sketchesOf, hc, sketch_symbol] using ih

end Tree

def Token.unplaced (token : Token) : Token := ⟨token.kind, token.value, .empty (.at "" 0)⟩

theorem Token.unplaced_kind (token : Token) : token.unplaced.kind = token.kind := rfl

def Lexeme.token (lexeme : Lexeme) : Token :=
  ⟨lexeme.kind, String.ofList lexeme.text, .empty (.at "" 0)⟩

theorem map_unplaced_placeAll (file : String) (a : Nat) (ls : List Lexeme) :
    (placeAll file a ls).map Token.unplaced = ls.map Lexeme.token := by
  induction ls generalizing a with
  | nil => rfl
  | cons l ls ih => simp [placeAll, ih, Lexeme.place, Token.unplaced, Lexeme.token]

theorem map_unplaced_token (ls : List Lexeme) :
    (ls.map Lexeme.token).map Token.unplaced = ls.map Lexeme.token := by
  rw [List.map_map]
  rfl

mutual

theorem Tree.sketch_mapLeaves : ∀ tree : Tree, (tree.mapLeaves Token.unplaced).sketch = tree.sketch
  | leaf token => rfl
  | node kind children fields span => by
    rw [mapLeaves, sketch, sketch, sketchesOf_mapLeaves children]

theorem Tree.sketchesOf_mapLeaves :
    ∀ cs : List Tree, sketchesOf (mapLeavesOf Token.unplaced cs) = sketchesOf cs
  | [] => rfl
  | c :: cs => by
    rw [mapLeavesOf, sketchesOf, sketchesOf, isExtra_mapLeaves Token.unplaced_kind,
      sketch_mapLeaves c, sketchesOf_mapLeaves cs]

end

section Plant

variable {file : String}

/-- A derivation tree of a sketch, with line feeds between its words. -/
structure Plants (file : String) (s : Sketch) (tree : Tree) : Prop where
  derivation : Derivation file tree
  isExtra : tree.isExtra = false
  sketch : tree.sketch = s
  tokens : tree.tokens = (onLines s.words).map Lexeme.token

theorem sketchesOf_leaves {ls : List Lexeme} (h : ∀ l ∈ ls, l.kind.isExtra = false) :
    Tree.sketchesOf ((ls.map Lexeme.token).map .leaf) = ls.map .leaf := by
  induction ls with
  | nil => rfl
  | cons l ls ih =>
    have hl := h l (by simp)
    have hrest := ih fun m hm => h m (by simp [hm])
    simpa [Tree.sketchesOf, Tree.isExtra, Token.isExtra, Tree.sketch, Lexeme.token, hl] using hrest

theorem plant_word {kind : NodeKind} {word : List Lexeme} (hkind : kind.isTight = true)
    (hextras : ∀ l ∈ word, l.kind.isExtra = false)
    (hsymbols : word.map (.token ·.kind) ∈ production kind) :
    Plants file (.node kind (word.map .leaf))
      (nodeOf file kind ((word.map Lexeme.token).map .leaf)) := by
  have hleaves : ∀ c ∈ (word.map Lexeme.token).map Tree.leaf, c.isExtra = false := by
    simpa [Tree.isExtra, Token.isExtra, Lexeme.token] using hextras
  have hsketches := sketchesOf_leaves hextras
  refine ⟨.node ?_ ?_ (.of_none hleaves), rfl, congrArg (Sketch.node kind) hsketches, ?_⟩
  · intro c hc
    obtain ⟨t, _, rfl⟩ := List.mem_map.mp hc
    exact .leaf t
  · rw [Tree.symbols_eq_map_sketch, hsketches, List.map_map]
    exact hsymbols
  · rw [nodeOf, Tree.tokens, Tree.tokensOf_leaves, Sketch.words, if_pos hkind,
      Sketch.flatten_wordsOf_leaves, onLines_singleton]

/-- The parts of a node become its children, with a line feed in front of all but the first. -/
theorem plant_parts {kind : NodeKind} (hkind : kind.isTight = false) {parts : List Sketch}
    (hparts : ∀ s ∈ parts, s.words ≠ [] ∧ ∃ tree, Plants file s tree) :
    ∃ cs, (∀ c ∈ cs, Derivation file c) ∧ ExtrasFit kind cs ∧ Tree.sketchesOf cs = parts ∧
      Tree.tokensOf cs = (onLines (Sketch.wordsOf parts)).map Lexeme.token := by
  induction parts using List.reverseRecOn with
  | nil => exact ⟨[], by simp, .of_none (by simp), rfl, rfl⟩
  | append_singleton parts s ih =>
    obtain ⟨hwords, tree, htree⟩ := hparts s (by simp)
    obtain ⟨cs, hderived, hextras, hsketches, htokens⟩ := ih fun t ht => hparts t (by simp [ht])
    -- Only the first part has no gap in front of it: a node must not start with one.
    by_cases hnil : parts = []
    · subst hnil
      refine ⟨[tree], by simpa using htree.derivation, .of_none (by simpa using htree.isExtra),
        ?_, ?_⟩
      · simp [Tree.sketchesOf, htree.isExtra, htree.sketch]
      · simp [Tree.tokensOf, htree.tokens, Sketch.wordsOf]
    · have hbefore : Sketch.wordsOf parts ≠ [] := by
        obtain ⟨t, rest, rfl⟩ := List.exists_cons_of_ne_nil hnil
        simp [Sketch.wordsOf, (hparts t (by simp)).1]
      have hcs : cs ≠ [] := by
        rintro rfl
        exact hnil hsketches.symm
      refine ⟨cs ++ ([.leaf lineFeed.token] ++ [tree]), ?_, ?_, ?_, ?_⟩
      · intro c hc
        rcases List.mem_append.mp hc with hc | hc
        · exact hderived c hc
        · rcases List.mem_cons.mp hc with rfl | hc
          · exact .leaf _
          · obtain rfl := List.mem_singleton.mp hc
            exact htree.derivation
      · exact hextras.append (fun _ h => absurd h hcs) htree.isExtra (NodeKind.not_tight hkind)
      · have hfeed : (Tree.leaf lineFeed.token).isExtra = true := rfl
        rw [Tree.sketchesOf_append, hsketches]
        simp [Tree.sketchesOf, hfeed, htree.isExtra, htree.sketch]
      · rw [Tree.tokensOf_append, htokens, Sketch.wordsOf_append]
        simp [Tree.tokensOf, Tree.tokens, htree.tokens, Sketch.wordsOf,
          onLines_append hbefore hwords]

theorem Sketch.Valid.plant {s : Sketch} (h : s.Valid) (file : String) :
    ∃ tree, Plants file s tree := by
  induction h with
  | @leaf lexeme hlegible hextra =>
    exact ⟨.leaf lexeme.token, .leaf _, hextra, by simp [Tree.sketch, Lexeme.token],
      by simp [Tree.tokens, words]⟩
  | word hkind _ hextras hsymbols => exact ⟨_, plant_word hkind hextras hsymbols⟩
  | @node kind parts hkind hparts hsymbols ih =>
    have hinner := production_le_inner kind hsymbols
    have hplant (s : Sketch) (hs : s ∈ parts) : s.words ≠ [] ∧ ∃ tree, Plants file s tree := by
      refine ⟨(hparts s hs).words_ne_nil fun hfile => hinner ?_, ih s hs⟩
      exact hfile ▸ List.mem_map_of_mem hs
    obtain ⟨cs, hderived, hextras, hsketches, htokens⟩ := plant_parts hkind hplant
    refine ⟨nodeOf file kind cs, .node hderived ?_ hextras, rfl,
      congrArg (Sketch.node kind) hsketches, ?_⟩
    · rw [Tree.symbols_eq_map_sketch, hsketches]
      exact hsymbols
    · rw [nodeOf, Tree.tokens, htokens, words, if_neg (by simp [hkind])]

end Plant

/-- The text of a sketch: its words with a line feed between any two of them. -/
def Sketch.print (s : Sketch) : String :=
  "\n".intercalate (s.words.map fun word => String.ofList (textOf word))

theorem Sketch.toList_print (s : Sketch) : s.print.toList = textOf (onLines s.words) := by
  rw [print, String.toList_intercalate, textOf_onLines, List.map_map]
  simp [Function.comp_def]

/-- The sketch of a file is read back from its text. -/
theorem Sketch.Valid.readTree_print {s : Sketch} (h : s.Valid)
    (hroot : s.symbol = .node .sourceFile) (label? : Option String) :
    ∃ tree, Lexicon.standard.readTree s.print label? = .ok tree ∧ tree.sketch = s := by
  obtain ⟨tree, hderivation, _, hsketch, htokens⟩ := h.plant (label?.getD defaultLabel)
  have htokens' : (placeAll (label?.getD defaultLabel) 0 (onLines s.words)).map Token.unplaced =
      tree.tokens.map Token.unplaced := by
    rw [htokens, map_unplaced_placeAll, map_unplaced_token]
  have hroot' : tree.symbol = .node .sourceFile := by rw [← tree.sketch_symbol, hsketch, hroot]
  obtain ⟨tree', htree', hleaves⟩ := Lexicon.readTree_of_lexemes (read_onLines h.legible)
    Token.unplaced_kind hderivation hroot' htokens'
  rw [← s.toList_print, String.ofList_toList] at htree'
  exact ⟨tree', htree', by rw [← Tree.sketch_mapLeaves, hleaves, Tree.sketch_mapLeaves, hsketch]⟩

end HslTree
