import HslTree.Proofs.Reformatting

/-! Trees of whole files. A source is read as a tree just if the tree derives its lexemes, and the
extras at either end of its leaves are children of the file itself. -/

namespace HslTree

open scoped Computability

theorem Lexicon.readTree_eq_ok_iff {source : String} {label? : Option String} {tree : Tree} :
    standard.readTree source label? = .ok tree ↔
      ∃ ls, standard.read source.toList = ⟨ls, [], none⟩ ∧
        Derives (label?.getD defaultLabel) tree (placeAll (label?.getD defaultLabel) 0 ls) := by
  constructor
  · intro h
    obtain ⟨ls, _, hrun, hderivation, hroot, htokens⟩ := readTree_ok h
    obtain ⟨ls', hread, hrun'⟩ := read_of_readTokens hrun
    have hplaced := (List.append_inj' hrun' rfl).1
    exact ⟨ls', hread, hderivation, hroot, htokens.trans hplaced⟩
  · rintro ⟨ls, hread, hderives⟩
    have htree := readTree_of_derives hread hderives
    rwa [String.ofList_toList] at htree

/-- The children of a file. -/
structure FileChildren (file : String) (children : List Tree) : Prop where
  derived : ∀ c ∈ children, Derivation file c
  definitions : symbols children ∈ production .sourceFile

theorem Derives.exists_children {file : String} {tree : Tree} {leaves : List Token}
    (h : Derives file tree leaves) : ∃ children, tree = nodeOf file .sourceFile children ∧
      FileChildren file children ∧ Tree.tokensOf children = leaves := by
  obtain ⟨hderivation, hroot, hleaves⟩ := h
  cases hderivation with
  | leaf => cases hroot
  | @node kind children hchildren hsymbols _ =>
    obtain rfl : kind = .sourceFile := by simpa [nodeOf, Tree.symbol] using hroot
    exact ⟨children, rfl, ⟨hchildren, hsymbols⟩, hleaves⟩

namespace FileChildren

variable {file : String} {cs : List Tree}

theorem derives (h : FileChildren file cs) :
    Derives file (nodeOf file .sourceFile cs) (Tree.tokensOf cs) :=
  ⟨.node h.derived h.definitions ⟨fun hkind => absurd rfl hkind, fun hkind => absurd rfl hkind,
    NodeKind.not_tight rfl⟩, rfl, rfl⟩

theorem symbol_ne (h : FileChildren file cs) {c : Tree} (hc : c ∈ cs) :
    c.symbol ≠ .node .sourceFile := symbol_ne_of_mem h.definitions hc

theorem symbol_of_mem (h : FileChildren file cs) {c : Tree} (hc : c ∈ cs)
    (hextra : c.isExtra = false) :
    c.symbol = .node .externBlock ∨ c.symbol = .node .function := by
  obtain ⟨words, hsymbols, hwords⟩ := Language.mem_kstar.mp h.definitions
  have hmem : c.symbol ∈ symbols cs :=
    List.mem_map_of_mem (List.mem_filter.mpr ⟨hc, by simp [hextra]⟩)
  rw [hsymbols] at hmem
  obtain ⟨word, hword, hin⟩ := List.mem_flatten.mp hmem
  rcases (Language.mem_add ..).mp (hwords word hword) with rfl | rfl
  · exact .inl (List.mem_singleton.mp hin)
  · exact .inr (List.mem_singleton.mp hin)

theorem single {c : Tree} (hc : Derivation file c)
    (hsymbol : c.symbol = .node .externBlock ∨ c.symbol = .node .function) :
    FileChildren file [c] where
  derived := by simpa using hc
  definitions := by
    have hextra : c.isExtra = false := by
      rcases hsymbol with h | h <;> exact Tree.isExtra_of_symbol h
    rw [symbols_cons hextra, symbols_nil]
    refine Language.mem_kstar.mpr ⟨[[c.symbol]], rfl, ?_⟩
    rintro _ (_ | ⟨_, ⟨⟩⟩)
    rcases hsymbol with h | h
    · exact .inl (by rw [h]; rfl)
    · exact .inr (by rw [h]; rfl)

end FileChildren

section Edges

variable {file : String}

/-- A node below a file ends with a token that is no extra. -/
theorem Derivation.last_token {tree : Tree} (h : Derivation file tree)
    (hroot : tree.symbol ≠ .node .sourceFile) (hextra : tree.isExtra = false) :
    ∃ ts t, tree.tokens = ts ++ [t] ∧ t.isExtra = false := by
  induction h with
  | leaf token => exact ⟨[], token, rfl, hextra⟩
  | @node kind children _ hsymbols hextras ih =>
    have hkind : kind ≠ .sourceFile := fun hkind => hroot (congrArg Symbol.node hkind)
    rcases List.eq_nil_or_concat children with rfl | ⟨front, c, rfl⟩
    · exact absurd hsymbols (nil_notMem_production hkind)
    · rw [List.concat_eq_append] at *
      obtain ⟨ts, t, htokens, ht⟩ := ih c (by simp) (symbol_ne_of_mem hsymbols (by simp))
        (hextras.last hkind c (by simp))
      refine ⟨Tree.tokensOf front ++ ts, t, ?_, ht⟩
      simp [nodeOf, Tree.tokens, Tree.tokensOf, htokens]

theorem Derivation.first_not_extra {tree : Tree} (h : Derivation file tree)
    (hroot : tree.symbol ≠ .node .sourceFile) (hextra : tree.isExtra = false) :
    ∃ t ts, tree.tokens = t :: ts ∧ t.isExtra = false := by
  cases tree with
  | leaf token => exact ⟨token, [], rfl, hextra⟩
  | node kind children fields span =>
    obtain ⟨rule, rfl⟩ := exists_rule fun hkind => hroot (congrArg Symbol.node hkind)
    obtain ⟨t, ts, htokens, ht, _⟩ := h.first_token rfl
    exact ⟨t, ts, htokens, ht⟩

theorem Tree.eq_leaf_of_isExtra {c : Tree} (h : c.isExtra = true) : ∃ t, c = .leaf t := by
  cases c with
  | leaf t => exact ⟨t, rfl⟩
  | node => cases h

theorem exists_children_behind {cs : List Tree} (hderived : ∀ c ∈ cs, Derivation file c)
    (hroot : ∀ c ∈ cs, c.symbol ≠ .node .sourceFile) {es ts : List Token}
    (hes : ∀ e ∈ es, e.isExtra = true) (htokens : Tree.tokensOf cs = es ++ ts) :
    ∃ ds, cs = es.map .leaf ++ ds ∧ Tree.tokensOf ds = ts := by
  induction es generalizing cs with
  | nil => exact ⟨cs, rfl, htokens⟩
  | cons e es ih =>
    cases cs with
    | nil => cases htokens
    | cons c cs =>
      rw [Tree.tokensOf, List.cons_append] at htokens
      cases hc : c.isExtra with
      | false =>
        obtain ⟨t, rest, ht, hextra⟩ :=
          (hderived c (by simp)).first_not_extra (hroot c (by simp)) hc
        rw [ht, List.cons_append] at htokens
        obtain ⟨rfl, _⟩ := List.cons.inj htokens
        rw [hes t (by simp)] at hextra
        cases hextra
      | true =>
        obtain ⟨t, rfl⟩ := Tree.eq_leaf_of_isExtra hc
        obtain ⟨rfl, hrest⟩ := List.cons.inj htokens
        obtain ⟨ds, rfl, hds⟩ := ih (fun d hd => hderived d (by simp [hd]))
          (fun d hd => hroot d (by simp [hd])) (fun d hd => hes d (by simp [hd])) hrest
        exact ⟨ds, rfl, hds⟩

theorem exists_children_before {cs : List Tree} (hderived : ∀ c ∈ cs, Derivation file c)
    (hroot : ∀ c ∈ cs, c.symbol ≠ .node .sourceFile) {ts es : List Token}
    (hes : ∀ e ∈ es, e.isExtra = true) (htokens : Tree.tokensOf cs = ts ++ es) :
    ∃ ds, cs = ds ++ es.map .leaf ∧ Tree.tokensOf ds = ts := by
  induction es using List.reverseRecOn generalizing cs with
  | nil => exact ⟨cs, by simp, by simpa using htokens⟩
  | append_singleton es e ih =>
    rcases List.eq_nil_or_concat cs with rfl | ⟨front, c, rfl⟩
    · simp [Tree.tokensOf] at htokens
    · rw [List.concat_eq_append] at *
      rw [Tree.tokensOf_append, ← List.append_assoc] at htokens
      simp only [Tree.tokensOf, List.append_nil] at htokens
      cases hc : c.isExtra with
      | false =>
        obtain ⟨rest, t, ht, hextra⟩ :=
          (hderived c (by simp)).last_token (hroot c (by simp)) hc
        rw [ht, ← List.append_assoc] at htokens
        obtain ⟨_, hlast⟩ := List.append_inj' htokens rfl
        rw [hes t (by simp [List.singleton_inj.mp hlast])] at hextra
        cases hextra
      | true =>
        obtain ⟨t, rfl⟩ := Tree.eq_leaf_of_isExtra hc
        obtain ⟨hrest, hlast⟩ := List.append_inj' htokens rfl
        obtain rfl : t = e := List.singleton_inj.mp hlast
        obtain ⟨ds, rfl, hds⟩ := ih (fun d hd => hderived d (by simp [hd]))
          (fun d hd => hroot d (by simp [hd])) (fun d hd => hes d (by simp [hd])) hrest
        exact ⟨ds, by simp, hds⟩

end Edges

end HslTree
