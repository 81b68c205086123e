import HslTree.Proofs.Tiling
import HslTree.Proofs.Viability
import HslTree.Source

/-! Trees are lossless: a tree that was read from a source spells the source, and so does every
node of it between the ends of its span. -/

namespace HslTree

/-- The part of a text that a span covers, if the span is one of the text. -/
def Span.slice? (span : Span) (text : List Char) : Option (List Char) := do
  let length ← span.length?
  let (_, rest) ← splitAtByte? span.start.offset.toNat text
  let (part, _) ← splitAtByte? length rest
  return part

theorem Span.slice?_between (file : String) {before mid : List Char} (after : List Char)
    (hsize : byteLength before + byteLength mid < 2 ^ 32) :
    (Span.between file (byteLength before) (byteLength before + byteLength mid)).slice?
      (before ++ (mid ++ after)) = some mid := by
  have hstart : (Position.at file (byteLength before)).offset.toNat = byteLength before :=
    Position.toNat_at file (by omega)
  have hstop := Position.toNat_at file hsize
  have hle : (Position.at file (byteLength before)).offset ≤
      (Position.at file (byteLength before + byteLength mid)).offset :=
    Position.at_le (Nat.le_add_right _ _) hsize
  have hlength : (Span.between file (byteLength before)
      (byteLength before + byteLength mid)).length? = some (byteLength mid) := by
    simp [Span.length?, Span.between, hle, hstart, hstop]
  have hstart' : (Span.between file (byteLength before)
      (byteLength before + byteLength mid)).start.offset.toNat = byteLength before := hstart
  rw [Span.slice?, hlength, hstart']
  simp [splitAtByte?_byteLength]

theorem Tree.mem_nodesOf {n : Tree} {cs : List Tree} (h : n ∈ Tree.nodesOf cs) :
    ∃ c ∈ cs, n ∈ c.nodes := by
  induction cs with
  | nil => cases h
  | cons c cs ih =>
    rcases List.mem_append.mp h with h | h
    · exact ⟨c, by simp, h⟩
    · obtain ⟨d, hd, hn⟩ := ih h
      exact ⟨d, by simp [hd], hn⟩

section Nodes

variable {file : String} {tree : Tree} {a : Nat} {ls : List Lexeme}

theorem Derivation.mem_nodes (h : Derivation file tree) (htokens : tree.tokens = placeAll file a ls)
    {n : Tree} (hn : n ∈ tree.nodes) :
    ∃ before mid after, ls = before ++ (mid ++ after) ∧
      n.tokens = placeAll file (a + byteLength (textOf before)) mid ∧ Derivation file n ∧
      n.isNode = true ∧ (n = tree ∧ before = [] ∨ n.symbol ≠ .node .sourceFile) := by
  induction h generalizing a ls with
  | leaf token => cases hn
  | @node kind children hchildren hsymbols hextras ih =>
    rcases List.mem_cons.mp hn with rfl | hn
    · exact ⟨[], ls, [], by simp, htokens, .node hchildren hsymbols hextras, rfl,
        .inl ⟨rfl, rfl⟩⟩
    · obtain ⟨c, hc, hnc⟩ := Tree.mem_nodesOf hn
      obtain ⟨xs, ys, rfl⟩ := List.append_of_mem hc
      have hsplit : Tree.tokensOf xs ++ (c.tokens ++ Tree.tokensOf ys) = placeAll file a ls := by
        rw [← htokens]
        simp [nodeOf, Tree.tokens, Tree.tokensOf]
      obtain ⟨us, rest, rfl, _, hrest⟩ := placeAll_split hsplit
      obtain ⟨ms, vs, rfl, hms, _⟩ := placeAll_split hrest
      obtain ⟨before, mid, after, rfl, hmid, hderived, hnode, hfile⟩ := ih c hc hms hnc
      refine ⟨us ++ before, mid, after ++ vs, by simp, ?_, hderived, hnode, .inr ?_⟩
      · rw [hmid, textOf_append, byteLength_append, Nat.add_assoc]
      · rcases hfile with ⟨rfl, _⟩ | hfile
        · exact symbol_ne_of_mem hsymbols hc
        · exact hfile

theorem Derivation.tiles (h : Derivation file tree) (hnode : tree.isNode = true)
    (htokens : tree.tokens = placeAll file a ls) (hsize : a + byteLength (textOf ls) < 2 ^ 32)
    (hroot : tree.symbol = .node .sourceFile → a = 0) :
    Tiles tree.span.start tree.children tree.span.stop := by
  rw [h.span_eq htokens hsize hroot]
  cases h with
  | leaf => cases hnode
  | @node kind children hchildren hsymbols hextras =>
    refine tiles_of_spans (fun c hc b us hb hbound => ?_) htokens hsize
    exact (hchildren c hc).span_eq hb hbound fun hfile =>
      absurd hfile (symbol_ne_of_mem hsymbols hc)

theorem text_of_tokens (htokens : tree.tokens = placeAll file a ls) :
    tree.text = String.ofList (textOf ls) := by
  rw [Tree.text, htokens, values_placeAll]

/-- Every node of a tree that stands at the start of a text is a part of the text, and its children
are the parts of this part. -/
theorem Derivation.node_slice (h : Derivation file tree)
    (htokens : tree.tokens = placeAll file 0 ls) (hsize : byteLength (textOf ls) < 2 ^ 32)
    {n : Tree} (hn : n ∈ tree.nodes) :
    Tiles n.span.start n.children n.span.stop ∧
      n.span.slice? (textOf ls) = some n.text.toList := by
  obtain ⟨before, mid, after, rfl, hmid, hderived, hnode, hfile⟩ := h.mem_nodes htokens hn
  rw [Nat.zero_add] at hmid
  simp only [textOf_append, byteLength_append] at hsize
  have hbound : byteLength (textOf before) + byteLength (textOf mid) < 2 ^ 32 := by omega
  have hroot : n.symbol = .node .sourceFile → byteLength (textOf before) = 0 := by
    intro hsymbol
    rcases hfile with ⟨_, rfl⟩ | hfile
    · rfl
    · exact absurd hsymbol hfile
  refine ⟨hderived.tiles hnode hmid hbound hroot, ?_⟩
  rw [hderived.span_eq hmid hbound hroot, text_of_tokens hmid, textOf_append, textOf_append,
    Span.slice?_between file _ hbound, String.toList_ofList]

end Nodes

namespace Lexicon

variable {lexicon : Lexicon} {file : String} {offset : Nat} {text : List Char}

theorem readAt_of_none (file : String) (offset : Nat) (h : (lexicon.read text).fault? = none) :
    lexicon.readAt file offset text =
      ⟨placeAll file offset (lexicon.read text).lexemes ++
          [.endAt (.at file (offset + byteLength (textOf (lexicon.read text).lexemes)))],
        offset + byteLength (textOf (lexicon.read text).lexemes), none⟩ := by
  simp [readAt, h]

theorem readAt_of_some (file : String) (offset : Nat) {fault : Fault} {distance : Nat}
    (h : (lexicon.read text).fault? = some (fault, distance)) :
    lexicon.readAt file offset text =
      ⟨placeAll file offset (lexicon.read text).lexemes,
        offset + byteLength (textOf (lexicon.read text).lexemes),
        some ⟨fault, .at file
          (offset + byteLength (textOf (lexicon.read text).lexemes) + distance)⟩⟩ := by
  simp [readAt, h]

theorem read_ok (h : (standard.read text).fault? = none) :
    textOf (standard.read text).lexemes = text := by
  have hcovers := (read_covers standard_kinds text).text
  rwa [read_rest h, List.append_nil] at hcovers

theorem placeAll_read_marks :
    ∀ t ∈ placeAll file offset (standard.read text).lexemes, t.kind ≠ .endOfInput := by
  intro t ht
  obtain ⟨l, hl, hkind⟩ := kind_of_mem_placeAll ht
  rw [hkind]
  exact (read_covers standard_kinds text).marks l hl

theorem readTree_ok {source : String} {label? : Option String} {tree : Tree}
    (h : standard.readTree source label? = .ok tree) :
    ∃ ls, textOf ls = source.toList ∧
      standard.readTokens source label? = .ok (placeAll (label?.getD defaultLabel) 0 ls ++
        [.endAt (.at (label?.getD defaultLabel) (byteLength source.toList))]) ∧
      Derivation (label?.getD defaultLabel) tree ∧ tree.symbol = .node .sourceFile ∧
      tree.tokens = placeAll (label?.getD defaultLabel) 0 ls := by
  cases hfault : (standard.read source.toList).fault? with
  | some d =>
    rw [readTree, readAt_of_some _ _ hfault] at h
    simp only at h
    split at h
    · split at h <;> cases h
    · cases h
  | none =>
    have htext := read_ok hfault
    have hrun := readAt_of_none (label?.getD defaultLabel) 0 hfault
    rw [htext, Nat.zero_add] at hrun
    rw [readTree, hrun] at h
    obtain ⟨hderivation, hroot, hleaves, _⟩ := parseTokens_derivation h
    refine ⟨_, htext, by rw [readTokens, hrun], hderivation, hroot, ?_⟩
    rw [hleaves]
    exact body_append_end placeAll_read_marks rfl []

end Lexicon

/-- A tree keeps all of its source. -/
structure Lossless (source : String) (label? : Option String) (tree : Tree) : Prop where
  tokens : Lexicon.standard.readTokens source label? = .ok (tree.tokens ++
    [.endAt (.at (label?.getD defaultLabel) (byteLength source.toList))])
  text : tree.text = source
  start : tree.span.start.offset.toNat = 0
  stop : tree.span.stop.offset.toNat = byteLength source.toList
  tiles : ∀ n ∈ tree.nodes, Tiles n.span.start n.children n.span.stop
  slices : ∀ n ∈ tree.nodes, n.span.slice? source.toList = some n.text.toList
  again : Lexicon.standard.readTree tree.text label? = .ok tree

theorem readTree_lossless {source : String} {label? : Option String} {tree : Tree}
    (hsize : byteLength source.toList < 2 ^ 32)
    (h : Lexicon.standard.readTree source label? = .ok tree) : Lossless source label? tree := by
  obtain ⟨ls, htext, hrun, hderivation, hroot, htokens⟩ := Lexicon.readTree_ok h
  have hbound : byteLength (textOf ls) < 2 ^ 32 := by rwa [htext]
  have hspan := hderivation.span_eq htokens (by rwa [Nat.zero_add]) fun _ => rfl
  rw [Nat.zero_add, htext] at hspan
  have hsource : tree.text = source := by rw [text_of_tokens htokens, htext, String.ofList_toList]
  have hnodes (n : Tree) (hn : n ∈ tree.nodes) := hderivation.node_slice htokens hbound hn
  rw [htext] at hnodes
  exact {
    tokens := by rw [htokens, hrun]
    text := hsource
    start := by rw [hspan]; rfl
    stop := by rw [hspan]; exact Position.toNat_at _ hsize
    tiles := fun n hn => (hnodes n hn).1
    slices := fun n hn => (hnodes n hn).2
    again := by rw [hsource, h] }

/-- Characters of several bytes, two escapes in a row and a negative number are kept. -/
theorem call_tree_lossless :
    let source := "<(-.-)> é世\nA long time ago in a f far, far away...\n" ++
      "Execute order g \"a\\n\\t\" -0x1F Order executed\nMay the force be with you.\n"
    byteLength source.toList < 2 ^ 32 ∧
      ∃ tree, Lexicon.standard.readTree source (some "é.hsl") = .ok tree ∧
        Lossless source (some "é.hsl") tree := by
  intro source
  have hsize : byteLength source.toList < 2 ^ 32 := by decide +kernel
  have hok : (Lexicon.standard.readTree source (some "é.hsl")).isOk = true := by decide +kernel
  cases h : Lexicon.standard.readTree source (some "é.hsl") with
  | error d =>
    rw [h] at hok
    cases hok
  | ok tree => exact ⟨hsize, tree, rfl, readTree_lossless hsize h⟩

end HslTree
