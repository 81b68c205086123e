import HslTree.Proofs.Program
import HslTree.Proofs.StringValues

/-! Strings that are written with a backslash in front of each backslash and each quote. A call on
any number of them is read, and they are the strings of its tree. -/

namespace HslTree

def writtenChar (c : Char) : List Char := if c = '\\' ∨ c = '"' then ['\\', c] else [c]

def writtenString (v : String) : String :=
  String.ofList ('"' :: (v.toList.flatMap writtenChar ++ ['"']))

/-- A function with one call on texts in its body, each token on a line of its own. -/
def callSource (name callee : Name) (texts : List String) : String :=
  "\n".intercalate (["A long time ago in a", String.ofList name.text, "far, far away...",
    "Execute order", String.ofList callee.text] ++ texts.map writtenString ++
    ["Order executed", "May the force be with you."])

section Units

theorem eq_or_eq_of_not_plain {c : Char} (h : ¬ isPlain c = true) : c = '\\' ∨ c = '"' := by
  simp only [isPlain, Bool.and_eq_true, bne_iff_ne] at h
  tauto

theorem isEscape_of_not_plain {c : Char} (h : ¬ isPlain c = true) : IsEscape [c] := by
  rcases eq_or_eq_of_not_plain h with rfl | rfl
  · exact .single (by decide) (by decide)
  · exact .single (by decide) (by decide)

def writtenUnit (c : Char) : StringUnit :=
  if h : isPlain c = true then .plain c h else .escape [c] (isEscape_of_not_plain h)

theorem text_writtenUnit (c : Char) : (writtenUnit c).text = writtenChar c := by
  by_cases h : isPlain c = true
  · have hc : ¬ (c = '\\' ∨ c = '"') := by
      simp only [isPlain, Bool.and_eq_true, bne_iff_ne] at h
      tauto
    rw [writtenUnit, dif_pos h, writtenChar, if_neg hc]
    rfl
  · rw [writtenUnit, dif_neg h, writtenChar, if_pos (eq_or_eq_of_not_plain h)]
    rfl

theorem value?_writtenUnit (c : Char) : (writtenUnit c).value? = some c := by
  by_cases h : isPlain c = true
  · rw [writtenUnit, dif_pos h]
    rfl
  · rw [writtenUnit, dif_neg h]
    rcases eq_or_eq_of_not_plain h with rfl | rfl
    · rfl
    · rfl

theorem textOf_writtenUnits (cs : List Char) :
    StringUnit.textOf (cs.map writtenUnit) = cs.flatMap writtenChar := by
  rw [StringUnit.textOf, List.flatMap_map]
  simp only [text_writtenUnit]

theorem mapM_value?_writtenUnits (cs : List Char) :
    (cs.map writtenUnit).mapM StringUnit.value? = some cs := by
  induction cs with
  | nil => rfl
  | cons c cs ih =>
    rw [List.map_cons, List.mapM_cons, ih, value?_writtenUnit]
    rfl

end Units

namespace Sketch

mutual

/-- The nodes of a sketch, each in front of those below it. -/
def nodes : Sketch → List Sketch
  | leaf _ => []
  | node kind parts => node kind parts :: nodesOf parts

def nodesOf : List Sketch → List Sketch
  | [] => []
  | s :: rest => s.nodes ++ nodesOf rest

end

theorem nodesOf_append (parts parts' : List Sketch) :
    nodesOf (parts ++ parts') = nodesOf parts ++ nodesOf parts' := by
  induction parts with
  | nil => rfl
  | cons s parts ih => simp [nodesOf, ih]

theorem nodesOf_leaves (ls : List Lexeme) : nodesOf (ls.map leaf) = [] := by
  induction ls with
  | nil => rfl
  | cons l ls ih => simpa [nodesOf, nodes] using ih

end Sketch

namespace Tree

mutual

theorem map_sketch_nodes : ∀ tree : Tree, tree.nodes.map sketch = tree.sketch.nodes
  | leaf token => rfl
  | node kind children fields span => by
    rw [nodes, List.map_cons, map_sketch_nodesOf children]
    rfl

theorem map_sketch_nodesOf :
    ∀ cs : List Tree, (nodesOf cs).map sketch = Sketch.nodesOf (sketchesOf cs)
  | [] => rfl
  | c :: cs => by
    rw [nodesOf, List.map_append, map_sketch_nodes c, map_sketch_nodesOf cs, sketchesOf]
    cases hc : c.isExtra with
    | false => rfl
    | true =>
      obtain ⟨t, rfl⟩ := eq_leaf_of_isExtra hc
      rfl

end

end Tree

section Strings

/-- The text and the value of a node that is sketched. -/
def Sketch.reading : Sketch → String × Option String
  | leaf _ => ("", none)
  | node _ parts =>
    (String.ofList (textOf (wordsOf parts).flatten),
      (valueOf? (wordsOf parts).flatten).map String.ofList)

theorem sketchesOf_map_leaf {ts : List Token} (h : ∀ t ∈ ts, t.isExtra = false) :
    Tree.sketchesOf (ts.map .leaf) = (ts.map Token.lexeme).map .leaf := by
  induction ts with
  | nil => rfl
  | cons t ts ih =>
    have ht : (Tree.leaf t).isExtra = false := h t (by simp)
    rw [List.map_cons, Tree.sketchesOf, ht, ih fun u hu => h u (by simp [hu])]
    rfl

theorem Derivation.reading_sketch {file : String} {n : Tree} (h : Derivation file n)
    (hkind : n.kind? = some .string) : n.sketch.reading = (n.text, n.stringValue?) := by
  obtain ⟨ts, rfl, hextra, _⟩ := h.string_children hkind
  have htokens : (nodeOf file .string (ts.map .leaf)).tokens = ts := Tree.tokensOf_leaves ts
  have hparts : (Sketch.wordsOf (Tree.sketchesOf (ts.map .leaf))).flatten =
      ts.map Token.lexeme := by
    rw [sketchesOf_map_leaf hextra, Sketch.flatten_wordsOf_leaves]
  have htext : (nodeOf file .string (ts.map .leaf)).text =
      String.ofList (textOf (ts.map Token.lexeme)) := by
    rw [Tree.text, htokens, ← toList_join_values, String.ofList_toList]
  rw [htext, Tree.stringValue?, if_pos hkind, htokens, contentValue?_eq, ← hparts]
  rfl

theorem strings_of_sketch {source : String} {label? : Option String} {tree : Tree}
    (h : Lexicon.standard.readTree source label? = .ok tree) :
    (tree.nodes.filter (·.kind? = some .string)).map (fun n => (n.text, n.stringValue?)) =
      (tree.sketch.nodes.filter (·.symbol = .node .string)).map Sketch.reading := by
  obtain ⟨ls, _, hderives⟩ := Lexicon.readTree_eq_ok_iff.mp h
  have hsame : ((fun s : Sketch => decide (s.symbol = .node .string)) ∘ Tree.sketch) =
      fun n : Tree => decide (n.kind? = some .string) := by
    funext n
    cases n with
    | leaf => rfl
    | node => simp [Tree.sketch, Sketch.symbol, Tree.kind?]
  rw [← Tree.map_sketch_nodes, List.filter_map, List.map_map, hsame]
  refine List.map_congr_left fun n hn => ?_
  obtain ⟨hmem, hkind⟩ := List.mem_filter.mp hn
  obtain ⟨_, _, _, _, hderived⟩ := hderives.derivation.balanced_before hmem
  exact (hderived.reading_sketch (of_decide_eq_true hkind)).symm

end Strings

section Calls

def writtenLiteral (v : String) : Expression := .literal (.string (v.toList.map writtenUnit))

def callProgram (name callee : Name) (texts : List String) : Program :=
  ⟨[.function ⟨name, none⟩ [.call callee (texts.map writtenLiteral)]]⟩

theorem text_writtenLiteral (v : String) :
    String.ofList (textOf (stringLexemes (v.toList.map writtenUnit))) = writtenString v := by
  rw [textOf_stringLexemes, textOf_writtenUnits, writtenString]

theorem wordsOf_writtenLiterals (texts : List String) :
    (Sketch.wordsOf ((texts.map writtenLiteral).map Expression.sketch)).map
        (fun word => String.ofList (textOf word)) = texts.map writtenString := by
  induction texts with
  | nil => rfl
  | cons v texts ih =>
    have hwords : (writtenLiteral v).sketch.words = [stringLexemes (v.toList.map writtenUnit)] := by
      simp [writtenLiteral, Expression.sketch, Literal.sketch, Sketch.words, Sketch.wordsOf,
        NodeKind.isTight, Sketch.flatten_wordsOf_leaves]
    simp only [List.map_cons, Sketch.wordsOf, ih, hwords, text_writtenLiteral,
      List.singleton_append]

theorem print_callProgram (name callee : Name) (texts : List String) :
    (callProgram name callee texts).sketch.print = callSource name callee texts := by
  have hopen : Kind.phrase? .functionOpen = some "A long time ago in a" := by decide
  have hmiddle : Kind.phrase? .functionMiddle = some "far, far away..." := by decide
  have hclose : Kind.phrase? .functionClose = some "May the force be with you." := by decide
  have hcall : Kind.phrase? .callOpen = some "Execute order" := by decide
  have hdone : Kind.phrase? .callClose = some "Order executed" := by decide
  rw [Sketch.print, callSource, ← wordsOf_writtenLiterals]
  simp [callProgram, Program.sketch, Definition.sketch, Statement.sketch, Sketch.words,
    Sketch.wordsOf, Sketch.wordsOf_append, NodeKind.isTight, countSketches, keyword, Name.sketch,
    hopen, hmiddle, hclose, hcall, hdone]

theorem strings_writtenLiterals (texts : List String) :
    ((Sketch.nodesOf ((texts.map writtenLiteral).map Expression.sketch)).filter
        (·.symbol = .node .string)).map Sketch.reading =
      texts.map fun v => (writtenString v, some v) := by
  induction texts with
  | nil => rfl
  | cons v texts ih =>
    have hnodes : (writtenLiteral v).sketch.nodes.filter (·.symbol = .node .string) =
        [.node .string ((stringLexemes (v.toList.map writtenUnit)).map .leaf)] := by
      simp [writtenLiteral, Expression.sketch, Literal.sketch, Sketch.nodes, Sketch.nodesOf,
        Sketch.nodesOf_leaves, Sketch.symbol]
    have hreading : Sketch.reading
        (.node .string ((stringLexemes (v.toList.map writtenUnit)).map .leaf)) =
        (writtenString v, some v) := by
      rw [Sketch.reading, Sketch.flatten_wordsOf_leaves, text_writtenLiteral,
        valueOf?_stringLexemes, mapM_value?_writtenUnits, Option.map_some, String.ofList_toList]
    simp only [List.map_cons, Sketch.nodesOf, List.filter_append, hnodes, ih, hreading,
      List.singleton_append]

theorem strings_callProgram (name callee : Name) (texts : List String) :
    ((callProgram name callee texts).sketch.nodes.filter (·.symbol = .node .string)).map
        Sketch.reading = texts.map fun v => (writtenString v, some v) := by
  rw [← strings_writtenLiterals]
  simp [callProgram, Program.sketch, Definition.sketch, Statement.sketch, Sketch.nodes,
    Sketch.nodesOf, Sketch.nodesOf_append, countSketches, keyword, Name.sketch, Sketch.symbol]

end Calls

/-- Every list of texts can be written as the arguments of a call and read back, whatever characters
are in the texts. -/
theorem readTree_written_strings (name callee : Name) (texts : List String)
    (label? : Option String) :
    ∃ tree, Lexicon.standard.readTree (callSource name callee texts) label? = .ok tree ∧
      (tree.nodes.filter (·.kind? = some .string)).map (fun n => (n.text, n.stringValue?)) =
        texts.map fun v => (writtenString v, some v) := by
  obtain ⟨tree, htree, hsketch⟩ :=
    (callProgram name callee texts).sketch_valid.readTree_print rfl label?
  rw [print_callProgram] at htree
  refine ⟨tree, htree, ?_⟩
  rw [strings_of_sketch htree, hsketch, strings_callProgram]

end HslTree
