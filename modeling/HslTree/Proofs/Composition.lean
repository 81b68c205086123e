import HslTree.Proofs.FileTrees
import HslTree.Proofs.Lexed
import HslTree.Proofs.Relocation

/-! Sources compose: two of them joined at a line feed are read as one file, in which the
definitions and comments of the second stand behind those of the first. -/

namespace HslTree

open scoped Computability

/-- What the S-expression of a tree shows inside its brackets. -/
def Tree.items (tree : Tree) : List String := (tree.children.filter isVisible).map sexp

theorem fieldsFrom_sourceFile (index : Nat) (cs : List Tree) :
    fieldsFrom .sourceFile index cs = [] := by
  induction cs generalizing index with
  | nil => rfl
  | cons c cs ih => cases c <;> simp [fieldsFrom, Tree.role, roleOf, ih]

theorem Tree.sexpItems_nil (index : Nat) (cs : List Tree) :
    sexpItems [] index cs = String.join (((cs.filter isVisible).map sexp).map (" " ++ ·)) := by
  induction cs generalizing index with
  | nil => rfl
  | cons c cs ih =>
    by_cases hc : c.isVisible = true
    · simp [sexpItems, hc, ih, fieldLabel, String.join_cons]
    · simp [sexpItems, hc, ih]

theorem Derives.sexp {file : String} {tree : Tree} {leaves : List Token}
    (h : Derives file tree leaves) :
    tree.sexp = "(source_file" ++ String.join (tree.items.map (" " ++ ·)) ++ ")" := by
  obtain ⟨cs, rfl, _, _⟩ := h.exists_children
  rw [nodeOf, Tree.sexp, fieldsFrom_sourceFile, Tree.sexpItems_nil]
  rfl

section Join

variable {file : String}

theorem isExtra_of_mem_blanks {a : Nat} {x : List Char} :
    ∀ t ∈ placeAll file a (blanks x), t.isExtra = true := by
  cases x with
  | nil => simp [blanks, placeAll]
  | cons c x => simp [blanks, placeAll, Lexeme.place, Token.isExtra, Kind.isExtra]

/-- The children of a file for the blanks in it. -/
def blankLeaves (file : String) (a : Nat) (x : List Char) : List Tree :=
  (placeAll file a (blanks x)).map .leaf

theorem isExtra_of_mem_blankLeaves {a : Nat} {x : List Char} :
    ∀ c ∈ blankLeaves file a x, c.isExtra = true := by
  intro c hc
  obtain ⟨t, ht, rfl⟩ := List.mem_map.mp hc
  exact isExtra_of_mem_blanks t ht

theorem filter_isVisible_blankLeaves (a : Nat) (x : List Char) :
    (blankLeaves file a x).filter Tree.isVisible = [] := by
  cases x <;> rfl

theorem FileChildren.join {as gap bs : List Tree} (ha : FileChildren file as)
    (hgap : ∀ e ∈ gap, e.isExtra = true) (hb : FileChildren file bs) :
    FileChildren file (as ++ (gap ++ bs)) where
  derived := by
    intro c hc
    rcases List.mem_append.mp hc with hc | hc
    · exact ha.derived c hc
    · rcases List.mem_append.mp hc with hc | hc
      · obtain ⟨t, rfl⟩ := Tree.eq_leaf_of_isExtra (hgap c hc)
        exact .leaf t
      · exact hb.derived c hc
  definitions := by
    rw [symbols_append, symbols_append, symbols_eq_nil_iff.mpr hgap, List.nil_append, production,
      ← kstar_mul_kstar]
    exact Language.append_mem_mul ha.definitions hb.definitions

theorem FileChildren.blanks_last {cs : List Tree} (h : FileChildren file cs) {ls : List Lexeme}
    {x : List Char} (hleaves : Tree.tokensOf cs = placeAll file 0 (ls ++ blanks x)) :
    ∃ ds a, cs = ds ++ blankLeaves file a x ∧ FileChildren file ds ∧
      Tree.tokensOf ds = placeAll file 0 ls := by
  rw [placeAll_append] at hleaves
  obtain ⟨ds, hcs, hds⟩ := exists_children_before h.derived (fun _ => h.symbol_ne)
    isExtra_of_mem_blanks hleaves
  have hcs : cs = ds ++ blankLeaves file _ x := hcs
  have hsymbols : symbols cs = symbols ds := by
    rw [hcs, symbols_append, symbols_eq_nil_iff.mpr isExtra_of_mem_blankLeaves, List.append_nil]
  exact ⟨ds, _, hcs, ⟨fun c hc => h.derived c (by simp [hcs, hc]), hsymbols ▸ h.definitions⟩, hds⟩

theorem FileChildren.blanks_first {cs : List Tree} (h : FileChildren file cs) {ls : List Lexeme}
    {y : List Char} (hleaves : Tree.tokensOf cs = placeAll file 0 (blanks y ++ ls)) :
    ∃ ds, cs = blankLeaves file 0 y ++ ds ∧ FileChildren file ds ∧
      Tree.tokensOf ds = placeAll file (byteLength y) ls := by
  rw [placeAll_append, textOf_blanks, Nat.zero_add] at hleaves
  obtain ⟨ds, hcs, hds⟩ := exists_children_behind h.derived (fun _ => h.symbol_ne)
    isExtra_of_mem_blanks hleaves
  have hcs : cs = blankLeaves file 0 y ++ ds := hcs
  have hsymbols : symbols cs = symbols ds := by
    rw [hcs, symbols_append, symbols_eq_nil_iff.mpr isExtra_of_mem_blankLeaves, List.nil_append]
  exact ⟨ds, hcs, ⟨fun c hc => h.derived c (by simp [hcs, hc]), hsymbols ▸ h.definitions⟩, hds⟩

theorem FileChildren.move {cs : List Tree} (h : FileChildren file cs) (f : UInt32 → UInt32) :
    FileChildren file (cs.map (Tree.move f)) where
  derived := by
    intro c hc
    obtain ⟨d, hd, rfl⟩ := List.mem_map.mp hc
    exact (h.derived d hd).move (h.symbol_ne hd) f
  definitions := by
    rw [symbols_map_move]
    exact h.definitions

theorem tokensOf_blankLeaves (a : Nat) (x : List Char) :
    Tree.tokensOf (blankLeaves file a x) = placeAll file a (blanks x) := Tree.tokensOf_leaves _

/-- Two files one behind the other, with the blanks at the seam in one token. -/
theorem exists_joined {ls' ms' : List Lexeme} {x y : List Char} {ta tb : Tree}
    (ha : Derives file ta (placeAll file 0 (ls' ++ blanks x)))
    (hb : Derives file tb (placeAll file 0 (blanks y ++ ms'))) :
    ∃ tree, Derives file tree (placeAll file 0 (ls' ++ (blanks (x ++ '\n' :: y) ++ ms'))) ∧
      tree.children.filter Tree.isVisible = ta.children.filter Tree.isVisible ++
        (tb.children.filter Tree.isVisible).map
          (Tree.move (· + (byteLength (textOf (ls' ++ blanks x)) + 1).toUInt32)) := by
  obtain ⟨_, rfl, hfa, hleavesA⟩ := ha.exists_children
  obtain ⟨_, rfl, hfb, hleavesB⟩ := hb.exists_children
  obtain ⟨as, _, rfl, has, htokensA⟩ := hfa.blanks_last hleavesA
  obtain ⟨bs, rfl, hbs, htokensB⟩ := hfb.blanks_first hleavesB
  obtain ⟨n, hn⟩ : ∃ n, n = byteLength (textOf (ls' ++ blanks x)) + 1 := ⟨_, rfl⟩
  rw [← hn]
  have hlength : byteLength (textOf ls') + byteLength (x ++ '\n' :: y) = byteLength y + n := by
    have hfeed : '\n'.utf8Size = 1 := by decide
    simp only [hn, textOf_append, textOf_blanks, byteLength_append, byteLength, hfeed]
    omega
  obtain ⟨seam, hseam⟩ : ∃ seam, seam =
      blankLeaves file (byteLength (textOf ls')) (x ++ '\n' :: y) := ⟨_, rfl⟩
  have hextra : ∀ c ∈ seam, c.isExtra = true := by
    rw [hseam]
    exact isExtra_of_mem_blankLeaves
  have hderives := (has.join hextra (hbs.move (· + n.toUInt32))).derives
  have htokens : Tree.tokensOf (as ++ (seam ++ bs.map (Tree.move (· + n.toUInt32)))) =
      placeAll file 0 (ls' ++ (blanks (x ++ '\n' :: y) ++ ms')) := by
    rw [Tree.tokensOf_append, Tree.tokensOf_append, hseam, tokensOf_blankLeaves, htokensA,
      ← Tree.moveAll_eq_map, Tree.tokensOf_moveAll, htokensB, map_move_placeAll, placeAll_append,
      placeAll_append, textOf_blanks, Nat.zero_add, hlength]
  refine ⟨_, htokens ▸ hderives, ?_⟩
  simp only [nodeOf, Tree.children, List.filter_append, hseam, filter_isVisible_blankLeaves,
    List.append_nil, List.nil_append, List.filter_map, Function.comp_def, Tree.isVisible_move]

end Join

theorem Tree.childNodes_eq (tree : Tree) :
    tree.childNodes = (tree.children.filter isVisible).filter isNode := by
  rw [childNodes, List.filter_filter]
  refine List.filter_congr fun c _ => ?_
  cases c <;> rfl

/-- Sources joined at a line feed are read as one file. The first source may end in the middle of
blanks or in a comment, and the second one may start with blanks. -/
theorem readTree_of_joined_sources {a b : String} {label? : Option String} {ta tb : Tree}
    (ha : Lexicon.standard.readTree a label? = .ok ta)
    (hb : Lexicon.standard.readTree b label? = .ok tb) :
    ∃ tree, Lexicon.standard.readTree (a ++ "\n" ++ b) label? = .ok tree ∧
      tree.childNodes = ta.childNodes ++
        tb.childNodes.map (Tree.move (· + (byteLength a.toList + 1).toUInt32)) ∧
      tree.items = ta.items ++ tb.items ∧
      ∀ t ∈ [ta, tb, tree],
        t.sexp = "(source_file" ++ String.join (t.items.map (" " ++ ·)) ++ ")" := by
  obtain ⟨la, hreadA, hda⟩ := Lexicon.readTree_eq_ok_iff.mp ha
  obtain ⟨lb, hreadB, hdb⟩ := Lexicon.readTree_eq_ok_iff.mp hb
  obtain ⟨hlexedA, htextA⟩ := Lexicon.read_eq_iff.mp hreadA
  obtain ⟨hlexedB, htextB⟩ := Lexicon.read_eq_iff.mp hreadB
  obtain ⟨ls, x, y, ms, rfl, rfl, hjoined⟩ := hlexedA.join_line hlexedB
  obtain ⟨tree, hderives, hvisible⟩ := exists_joined hda hdb
  have htext : textOf (ls ++ (blanks (x ++ '\n' :: y) ++ ms)) = (a ++ "\n" ++ b).toList := by
    simp [← htextA, ← htextB]
  rw [htextA] at hvisible
  refine ⟨tree, Lexicon.readTree_eq_ok_iff.mpr ⟨_, htext ▸ hjoined.read, hderives⟩, ?_, ?_, ?_⟩
  · simp only [Tree.childNodes_eq, hvisible, List.filter_append, List.filter_map,
      Function.comp_def, Tree.isNode_move]
  · simp only [Tree.items, hvisible, List.map_append, List.map_map, Function.comp_def,
      Tree.sexp_move]
  · intro t ht
    simp only [List.mem_cons, List.not_mem_nil, or_false] at ht
    rcases ht with rfl | rfl | rfl
    · exact hda.sexp
    · exact hdb.sexp
    · exact hderives.sexp

/-- The comment at the end of the first source does not run on into the second one. -/
theorem joined_behind_comment :
    let a := "Hypersignal f Starfield 0x2 Jamsignal <(-.-)> far,"
    let b := " \t\nA long time ago in a Execute far, far away... May the force be with you. "
    ∃ ta tb tree, Lexicon.standard.readTree a none = .ok ta ∧
      Lexicon.standard.readTree b none = .ok tb ∧
      Lexicon.standard.readTree (a ++ "\n" ++ b) none = .ok tree ∧
      ta.items = ["(extern_definition name: (identifier) (variadic variadic: (unsigned_integer)))",
        "(line_comment)"] ∧
      tb.items = ["(function_definition name: (identifier))"] ∧
      tree.childNodes = ta.childNodes ++
        tb.childNodes.map (Tree.move (· + (byteLength a.toList + 1).toUInt32)) ∧
      tree.items = ta.items ++ tb.items ∧
      ∀ t ∈ [ta, tb, tree],
        t.sexp = "(source_file" ++ String.join (t.items.map (" " ++ ·)) ++ ")" := by
  intro a b
  have hitemsA : (Lexicon.standard.readTree a none).toOption.map Tree.items =
      some ["(extern_definition name: (identifier) (variadic variadic: (unsigned_integer)))",
        "(line_comment)"] := by decide +kernel
  have hitemsB : (Lexicon.standard.readTree b none).toOption.map Tree.items =
      some ["(function_definition name: (identifier))"] := by decide +kernel
  have hparsesA : (Lexicon.standard.readTree a none).isOk = true := by decide +kernel
  have hparsesB : (Lexicon.standard.readTree b none).isOk = true := by decide +kernel
  obtain ⟨ta, ha⟩ := exists_of_isOk hparsesA
  obtain ⟨tb, hb⟩ := exists_of_isOk hparsesB
  obtain ⟨tree, htree, hjoined⟩ := readTree_of_joined_sources ha hb
  rw [ha] at hitemsA
  rw [hb] at hitemsB
  exact ⟨ta, tb, tree, ha, hb, htree, Option.some.inj hitemsA, Option.some.inj hitemsB, hjoined⟩

end HslTree
