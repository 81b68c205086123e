import HslTree.Proofs.IntegerValues

/-! The fields of parsed nodes and the views of statements, expressions and literals. Fields count
extras, productions do not, so what a field points at is found by cutting the children at a symbol
of the production. -/

namespace HslTree

open scoped Computability

/-- A node with one field, which points at its only token of a kind. One child that is no extra
stands in front of that token. -/
def Tree.NamesSecond (n : Tree) (field : Field) (k : Kind) : Prop :=
  ∃ i t, n.fields = [(field, i)] ∧ n.children[i]? = some (.leaf t) ∧ t.kind = k ∧
    ((n.children.take i).filter (!·.isExtra)).length = 1 ∧
    ∀ j u, n.children[j]? = some (.leaf u) → u.kind = k → j = i

structure Tree.FieldsFit (n : Tree) : Prop where
  pointed : ∀ f ∈ n.fields, ∃ c, n.children[f.2]? = some c ∧ c.isExtra = false
  increasing : n.fields.Pairwise fun f g => f.2 < g.2
  names : n.kind? = some .externBlock → ∀ field i, (field, i) ∈ n.fields ↔
    field = .name ∧ ∃ t, n.children[i]? = some (.leaf t) ∧ t.kind = .identifier
  name : n.kind? = some .function ∨ n.kind? = some .call → n.NamesSecond .name .identifier
  count : n.kind? = some .variadic → n.NamesSecond .variadic .number
  unnamed : n.kind? ≠ some .externBlock → n.kind? ≠ some .function → n.kind? ≠ some .call →
    n.kind? ≠ some .variadic → n.fields = []

/-- Variadic parts stand behind a name of an extern block, or behind the middle of a function. -/
def Tree.VariadicsFit (n : Tree) : Prop :=
  ∀ before c after, n.children = before ++ c :: after → c.kind? = some .variadic →
    ∃ t, (before.filter (!·.isExtra)).getLast? = some (.leaf t) ∧
      (n.kind? = some .externBlock ∧ t.kind = .identifier ∨
        n.kind? = some .function ∧ t.kind = .functionMiddle)

/-- The views of a node show the one child that is no extra, as what it is. -/
structure Tree.ViewsFit (n : Tree) : Prop where
  statement : n.kind? = some .statement → ∃ c, n.significantChildren = [c] ∧
    (c.kind? = some .call ∧ n.statement? = some (.call c) ∨
      c.kind? = some .declaration ∧ n.statement? = some (.declaration c))
  expression : n.kind? = some .expression → ∃ c, n.significantChildren = [c] ∧
    ((∃ t, c = .leaf t ∧ t.kind = .identifier ∧ n.expression? = some (.identifier t)) ∨
      c.kind? = some .literal ∧ n.expression? = some (.literal c))
  literal : n.kind? = some .literal → ∃ c, n.significantChildren = [c] ∧
    (c.kind? = some .integer ∧ n.literal? = some (.integer c) ∨
      c.kind? = some .string ∧ n.literal? = some (.string c) ∨
      c.kind? = some .char ∧ n.literal? = some (.char c) ∨
      c.kind? = some .bool ∧ n.literal? = some (.bool c))

section Fields

variable {file : String} {kind : NodeKind} {cs : List Tree} {field : Field}

def Symbol.role (kind : NodeKind) : Symbol → Option Field
  | token k => roleOf kind k
  | node _ => none

theorem Tree.role_eq (kind : NodeKind) (c : Tree) : c.role kind = c.symbol.role kind := by
  cases c <;> rfl

theorem Tree.isExtra_of_role {c : Tree} (h : c.role kind = some field) : c.isExtra = false := by
  cases c with
  | node => rfl
  | leaf t =>
    rw [Bool.eq_false_iff]
    intro hextra
    have hnone : roleOf kind t.kind = none := roleOf_extra hextra
    rw [Tree.role, hnone] at h
    cases h

theorem mem_fieldsFrom {index i : Nat} :
    (field, i) ∈ fieldsFrom kind index cs ↔
      ∃ j c, i = index + j ∧ cs[j]? = some c ∧ c.role kind = some field := by
  induction cs generalizing index with
  | nil => simp [fieldsFrom]
  | cons c cs ih =>
    have hhead : (field, i) ∈ ((c.role kind).map (·, index)).toList ↔
        i = index ∧ c.role kind = some field := by
      cases c.role kind <;> simp [eq_comm, and_comm]
    rw [fieldsFrom, List.mem_append, hhead, ih]
    constructor
    · rintro (⟨rfl, hrole⟩ | ⟨j, d, rfl, hd, hrole⟩)
      · exact ⟨0, c, rfl, rfl, hrole⟩
      · exact ⟨j + 1, d, by omega, hd, hrole⟩
    · rintro ⟨j, d, rfl, hd, hrole⟩
      cases j with
      | zero =>
        obtain rfl : c = d := Option.some.inj hd
        exact .inl ⟨rfl, hrole⟩
      | succ j => exact .inr ⟨j, d, by omega, hd, hrole⟩

theorem mem_fields_nodeOf {i : Nat} :
    (field, i) ∈ (nodeOf file kind cs).fields ↔
      ∃ c, cs[i]? = some c ∧ c.role kind = some field := by
  refine mem_fieldsFrom.trans ⟨?_, fun ⟨c, hc, hrole⟩ => ⟨i, c, by omega, hc, hrole⟩⟩
  rintro ⟨j, c, rfl, hc, hrole⟩
  exact ⟨c, by rwa [Nat.zero_add], hrole⟩

theorem fieldsFrom_increasing (index : Nat) :
    (fieldsFrom kind index cs).Pairwise fun f g => f.2 < g.2 := by
  induction cs generalizing index with
  | nil => exact .nil
  | cons c cs ih =>
    rw [fieldsFrom, List.pairwise_append]
    refine ⟨?_, ih _, ?_⟩
    · cases c.role kind <;> simp
    · rintro f hf ⟨field, i⟩ hg
      obtain ⟨j, _, rfl, _⟩ := mem_fieldsFrom.mp hg
      obtain ⟨_, _, rfl⟩ := Option.map_eq_some_iff.mp (Option.mem_toList.mp hf)
      change index < index + 1 + j
      omega

theorem fieldsFrom_eq_nil {index : Nat} (h : ∀ s ∈ symbols cs, s.role kind = none) :
    fieldsFrom kind index cs = [] := by
  refine List.eq_nil_iff_forall_not_mem.mpr ?_
  rintro ⟨field, i⟩ hmem
  obtain ⟨j, c, -, hc, hrole⟩ := mem_fieldsFrom.mp hmem
  have hsymbol : c.symbol ∈ symbols cs :=
    List.mem_map_of_mem (List.mem_filter.mpr
      ⟨List.mem_of_getElem? hc, by simp [Tree.isExtra_of_role hrole]⟩)
  rw [Tree.role_eq, h _ hsymbol] at hrole
  cases hrole

theorem symbols_eq_append_cons {u w : List Symbol} {a : Symbol} (h : symbols cs = u ++ a :: w) :
    ∃ before c after, cs = before ++ c :: after ∧ symbols before = u ∧ c.symbol = a ∧
      symbols after = w := by
  induction u generalizing cs with
  | nil =>
    obtain ⟨gap, c, tail, rfl, hgap, -, hc, htail⟩ := symbols_eq_cons h
    exact ⟨gap, c, tail, rfl, hgap, hc, htail⟩
  | cons b u ih =>
    obtain ⟨gap, d, tail, rfl, hgap, hd, rfl, htail⟩ := symbols_eq_cons h
    obtain ⟨before, c, after, rfl, hbefore, hc, hafter⟩ := ih htail
    refine ⟨gap ++ d :: before, c, after, by simp, ?_, hc, hafter⟩
    rw [symbols_append, symbols_cons hd, hgap, hbefore, List.nil_append]

/-- Where a production starts with two tokens of which the second one has a role, and no other
symbol has one, the node has one field. -/
theorem namesSecond_of_production {opening k : Kind} {L : Language Symbol}
    (hproduction : production kind = aToken opening * (aToken k * L))
    (hopening : roleOf kind opening = none) (hk : roleOf kind k = some field)
    (hL : L ≤ allOf (·.role kind = none)) (hsymbols : symbols cs ∈ production kind) :
    (nodeOf file kind cs).NamesSecond field k := by
  rw [hproduction] at hsymbols
  obtain ⟨_, rfl, _, ⟨_, rfl, rest, hrest, rfl⟩, hword⟩ := hsymbols
  obtain ⟨before, c, after, rfl, hbefore, hc, hafter⟩ :=
    symbols_eq_append_cons (u := [.token opening]) hword.symm
  obtain ⟨t, rfl, rfl⟩ := Tree.exists_leaf hc
  have hfields : (nodeOf file kind (before ++ .leaf t :: after)).fields =
      [(field, before.length)] := by
    have hfirst : fieldsFrom kind 0 before = [] :=
      fieldsFrom_eq_nil (by simpa [hbefore, Symbol.role] using hopening)
    have hothers : fieldsFrom kind (before.length + 1) after = [] :=
      fieldsFrom_eq_nil (hafter ▸ hL hrest)
    change fieldsFrom kind 0 (before ++ .leaf t :: after) = _
    rw [fieldsFrom_append, hfirst, Nat.zero_add, fieldsFrom, hothers, Tree.role, hk]
    rfl
  refine ⟨before.length, t, hfields, by simp [nodeOf, Tree.children], rfl, ?_, ?_⟩
  · have hone := congrArg List.length hbefore
    simpa [symbols, nodeOf, Tree.children] using hone
  · intro j u hu hkind
    have hmem : (field, j) ∈ (nodeOf file kind (before ++ .leaf t :: after)).fields :=
      mem_fields_nodeOf.mpr ⟨.leaf u, hu, by rw [Tree.role, hkind, hk]⟩
    rw [hfields, List.mem_singleton] at hmem
    exact (Prod.mk.inj hmem).2

theorem production_function : production .function =
    aToken .functionOpen * (aToken .identifier * (aToken .functionMiddle *
      (1 + aNode .variadic) * (aNode .statement)∗ * aToken .functionClose)) := by
  simp only [production, mul_assoc]

theorem function_namesSecond (hsymbols : symbols cs ∈ production .function) :
    (nodeOf file .function cs).NamesSecond .name .identifier := by
  refine namesSecond_of_production production_function rfl rfl ?_ hsymbols
  apply_rules [mul_le_allOf, add_le_allOf, kstar_le_allOf, one_le_allOf, aToken_le_allOf,
    aNode_le_allOf]

theorem call_namesSecond (hsymbols : symbols cs ∈ production .call) :
    (nodeOf file .call cs).NamesSecond .name .identifier := by
  have hproduction : production .call = aToken .callOpen * (aToken .identifier *
      ((aNode .expression)∗ * aToken .callClose)) := by simp only [production, mul_assoc]
  refine namesSecond_of_production hproduction rfl rfl ?_ hsymbols
  apply_rules [mul_le_allOf, kstar_le_allOf, aToken_le_allOf, aNode_le_allOf]

theorem variadic_namesSecond (hsymbols : symbols cs ∈ production .variadic) :
    (nodeOf file .variadic cs).NamesSecond .variadic .number := by
  have hproduction : production .variadic = aToken .variadic * (aToken .number * 1) := by
    rw [mul_one, production]
  exact namesSecond_of_production hproduction rfl rfl (one_le_allOf _) hsymbols

theorem Tree.role_extern {c : Tree} : c.role .externBlock = some field ↔
    field = .name ∧ ∃ t, c = .leaf t ∧ t.kind = .identifier := by
  cases c with
  | node => simp [role]
  | leaf t => cases hk : t.kind <;> simp [role, roleOf, hk, eq_comm]

theorem fieldsFit (hsymbols : symbols cs ∈ production kind) : (nodeOf file kind cs).FieldsFit where
  pointed := by
    rintro ⟨field, i⟩ hf
    obtain ⟨c, hc, hrole⟩ := mem_fields_nodeOf.mp hf
    exact ⟨c, hc, Tree.isExtra_of_role hrole⟩
  increasing := fieldsFrom_increasing 0
  names := by
    intro hkind field i
    obtain rfl : kind = .externBlock := Option.some.inj hkind
    rw [mem_fields_nodeOf]
    constructor
    · rintro ⟨c, hc, hrole⟩
      obtain ⟨rfl, t, rfl, ht⟩ := Tree.role_extern.mp hrole
      exact ⟨rfl, t, hc, ht⟩
    · rintro ⟨rfl, t, hc, ht⟩
      exact ⟨.leaf t, hc, Tree.role_extern.mpr ⟨rfl, t, rfl, ht⟩⟩
  name := by
    rintro (hkind | hkind)
    · obtain rfl : kind = .function := Option.some.inj hkind
      exact function_namesSecond hsymbols
    · obtain rfl : kind = .call := Option.some.inj hkind
      exact call_namesSecond hsymbols
  count := by
    intro hkind
    obtain rfl : kind = .variadic := Option.some.inj hkind
    exact variadic_namesSecond hsymbols
  unnamed := by
    intro hextern hfunction hcall hvariadic
    refine fieldsFrom_eq_nil fun s _ => ?_
    cases s with
    | node => rfl
    | token k =>
      cases kind with
      | externBlock => exact absurd rfl hextern
      | function => exact absurd rfl hfunction
      | call => exact absurd rfl hcall
      | variadic => exact absurd rfl hvariadic
      | _ => rfl

end Fields

section Variadics

variable {L M : Language Symbol} {a b : Symbol}

/-- The words in which each symbol b stands right behind a symbol a. -/
def behind (a b : Symbol) : Language Symbol := {w | ∀ u v, w = u ++ b :: v → u.getLast? = some a}

theorem allOf_le_behind : allOf (· ≠ b) ≤ behind a b := by
  rintro _ hw u v rfl
  exact absurd rfl (hw b (by simp))

theorem mul_le_behind (hL : L ≤ behind a b) (hM : M ≤ behind a b) : L * M ≤ behind a b := by
  rintro _ ⟨x, hx, y, hy, rfl⟩ u v hcut
  rcases List.append_eq_append_iff.mp hcut with ⟨z, rfl, hz⟩ | ⟨z, rfl, hz⟩
  · -- The symbol is in the second word, and so is what stands in front of it.
    have hlast := hM hy z v hz
    rw [List.getLast?_append, hlast]
    rfl
  · cases z with
    | nil =>
      have hlast := hM hy [] v hz.symm
      cases hlast
    | cons s z =>
      obtain ⟨rfl, -⟩ := List.cons.inj hz
      exact hL hx u z rfl

theorem kstar_le_behind (hL : L ≤ behind a b) : L∗ ≤ behind a b := by
  have hone : 1 ≤ behind a b := le_trans (one_le_allOf _) allOf_le_behind
  exact kstar_le_of_mul_le_left hone (mul_le_behind le_rfl hL)

theorem optional_le_behind {k : Kind} {part : NodeKind} :
    aToken k * (1 + aNode part) ≤ behind (.token k) (.node part) := by
  rintro _ ⟨_, rfl, y, hy, rfl⟩ u v hcut
  rcases (Language.mem_add ..).mp hy with rfl | rfl
  · cases u <;> simp at hcut
  · cases u with
    | nil => simp at hcut
    | cons s u => cases u <;> simp_all

theorem extern_le_behind :
    production .externBlock ≤ behind (.token .identifier) (.node .variadic) := by
  have htoken (k : Kind) : aToken k ≤ behind (.token .identifier) (.node .variadic) :=
    le_trans (aToken_le_allOf _ (by simp)) allOf_le_behind
  exact mul_le_behind (mul_le_behind (htoken _) (kstar_le_behind optional_le_behind)) (htoken _)

theorem function_le_behind :
    production .function ≤ behind (.token .functionMiddle) (.node .variadic) := by
  have htoken (k : Kind) : aToken k ≤ behind (.token .functionMiddle) (.node .variadic) :=
    le_trans (aToken_le_allOf _ (by simp)) allOf_le_behind
  have hstatement : aNode .statement ≤ behind (.token .functionMiddle) (.node .variadic) :=
    le_trans (aNode_le_allOf _ (by simp)) allOf_le_behind
  rw [production_function]
  refine mul_le_behind (htoken _) (mul_le_behind (htoken _) ?_)
  exact mul_le_behind (mul_le_behind optional_le_behind (kstar_le_behind hstatement)) (htoken _)

theorem variadic_behind {kind : NodeKind} {u v : List Symbol}
    (h : u ++ .node .variadic :: v ∈ production kind) :
    kind = .externBlock ∧ u.getLast? = some (.token .identifier) ∨
      kind = .function ∧ u.getLast? = some (.token .functionMiddle) := by
  have hmem : .node .variadic ∈ kind.alphabet := mem_alphabet h (by simp)
  cases kind with
  | externBlock => exact .inl ⟨rfl, extern_le_behind h u v rfl⟩
  | function => exact .inr ⟨rfl, function_le_behind h u v rfl⟩
  | _ => simp [NodeKind.alphabet] at hmem

theorem Tree.symbol_eq_node_iff {c : Tree} {k : NodeKind} :
    c.symbol = .node k ↔ c.kind? = some k := by
  cases c <;> simp [symbol, kind?]

theorem exists_last_leaf {cs : List Tree} {k : Kind} (h : (symbols cs).getLast? = some (.token k)) :
    ∃ t, (cs.filter (!·.isExtra)).getLast? = some (.leaf t) ∧ t.kind = k := by
  rw [symbols, List.getLast?_map] at h
  obtain ⟨c, hlast, hc⟩ := Option.map_eq_some_iff.mp h
  obtain ⟨t, rfl, ht⟩ := Tree.exists_leaf hc
  exact ⟨t, hlast, ht⟩

theorem variadicsFit {file : String} {kind : NodeKind} {cs : List Tree}
    (hsymbols : symbols cs ∈ production kind) : (nodeOf file kind cs).VariadicsFit := by
  intro before c after hcut hc
  obtain rfl : cs = before ++ c :: after := hcut
  have hsymbol := Tree.symbol_eq_node_iff.mpr hc
  rw [symbols_append, symbols_cons (Tree.isExtra_of_symbol hsymbol), hsymbol] at hsymbols
  rcases variadic_behind hsymbols with ⟨rfl, hlast⟩ | ⟨rfl, hlast⟩
  · obtain ⟨t, ht, hkind⟩ := exists_last_leaf hlast
    exact ⟨t, ht, .inl ⟨rfl, hkind⟩⟩
  · obtain ⟨t, ht, hkind⟩ := exists_last_leaf hlast
    exact ⟨t, ht, .inr ⟨rfl, hkind⟩⟩

end Variadics

section Views

variable {file : String} {kind k : NodeKind} {cs : List Tree}

theorem exists_only_child {a : Symbol} (file : String) (kind : NodeKind)
    (h : symbols cs = [a]) :
    ∃ c, (nodeOf file kind cs).significantChildren = [c] ∧ c.symbol = a :=
  List.map_eq_singleton_iff.mp h

theorem Tree.childNodes_of_significant {n c : Tree} (h : n.significantChildren = [c])
    (hc : c.kind? = some k) : n.childNodes = [c] := by
  have hnodes : n.childNodes = n.significantChildren.filter isNode := by
    rw [childNodes, significantChildren, List.filter_filter]
    refine List.filter_congr fun d _ => ?_
    cases d <;> simp [isNode, isExtra, kind?]
  rw [hnodes, h]
  simp [isNode, hc]

theorem viewsFit (hsymbols : symbols cs ∈ production kind) : (nodeOf file kind cs).ViewsFit where
  statement hkind := by
    obtain rfl : kind = .statement := Option.some.inj hkind
    simp only [production, Language.mem_add, mem_aNode] at hsymbols
    rcases hsymbols with h | h
    all_goals
      obtain ⟨c, honly, hsymbol⟩ := exists_only_child file .statement h
      have hc := Tree.symbol_eq_node_iff.mp hsymbol
      have hnodes := Tree.childNodes_of_significant honly hc
      exact ⟨c, honly, by simp [Tree.statement?, hkind, hnodes, hc]⟩
  expression hkind := by
    obtain rfl : kind = .expression := Option.some.inj hkind
    simp only [production, Language.mem_add, mem_aToken, mem_aNode] at hsymbols
    rcases hsymbols with h | h
    · obtain ⟨c, honly, hc⟩ := exists_only_child file .expression h
      obtain ⟨t, rfl, ht⟩ := Tree.exists_leaf hc
      refine ⟨.leaf t, honly, .inl ⟨t, rfl, ht, ?_⟩⟩
      simp [Tree.expression?, hkind, honly, ht]
    · obtain ⟨c, honly, hc⟩ := exists_only_child file .expression h
      refine ⟨c, honly, .inr ⟨Tree.symbol_eq_node_iff.mp hc, ?_⟩⟩
      cases c with
      | leaf => cases hc
      | node =>
        obtain rfl := Symbol.node.inj hc
        simp [Tree.expression?, hkind, honly]
  literal hkind := by
    obtain rfl : kind = .literal := Option.some.inj hkind
    simp only [production, Language.mem_add, mem_aNode] at hsymbols
    rcases hsymbols with ((h | h) | h) | h
    all_goals
      obtain ⟨c, honly, hsymbol⟩ := exists_only_child file .literal h
      have hc := Tree.symbol_eq_node_iff.mp hsymbol
      have hnodes := Tree.childNodes_of_significant honly hc
      exact ⟨c, honly, by simp [Tree.literal?, hkind, hnodes, hc]⟩

end Views

theorem Derivation.exists_production {file : String} {tree n : Tree} (h : Derivation file tree)
    (hn : n ∈ tree.nodes) :
    ∃ kind cs, n = nodeOf file kind cs ∧ symbols cs ∈ production kind := by
  induction h with
  | leaf => cases hn
  | @node kind children _ hsymbols _ ih =>
    rcases List.mem_cons.mp hn with rfl | hn
    · exact ⟨kind, children, rfl, hsymbols⟩
    · obtain ⟨c, hc, hnc⟩ := Tree.mem_nodesOf hn
      exact ih c hc hnc

/-- In a parsed file the fields of every node name what the grammar names, variadic parts stand
behind what they belong to, and the views of statements, expressions and literals never fail. The
root is a file, so every other kind of node has a node above it. -/
theorem parseTokens_fields_and_views {file : String} {tokens : List Token} {tree : Tree}
    (h : parseTokens file tokens = .ok tree) :
    tree.kind? = some .sourceFile ∧
      ∀ n ∈ tree.nodes, n.FieldsFit ∧ n.VariadicsFit ∧ n.ViewsFit := by
  obtain ⟨hderivation, hroot, -⟩ := parseTokens_derivation h
  refine ⟨Tree.symbol_eq_node_iff.mp hroot, fun n hn => ?_⟩
  obtain ⟨kind, cs, rfl, hsymbols⟩ := hderivation.exists_production hn
  exact ⟨fieldsFit hsymbols, variadicsFit hsymbols, viewsFit hsymbols⟩

/-- Extras shift the fields, and the number of a variadic part is a field of that part only. -/
theorem fields_and_views_of_variadics :
    let tokens : List Token := [.blank, .externOpen, .blank, .identifier, .comment, .variadic,
      .blank, .number, .identifier, .externClose, .functionOpen, .comment, .blank, .identifier,
      .functionMiddle, .blank, .variadic, .number, .callOpen, .identifier, .blank, .identifier,
      .minus, .number, .callClose, .functionClose].map fun k => ⟨k, "", .empty (.at "a.hsl" 0)⟩
    ∃ tree, parseTokens "a.hsl" tokens = .ok tree ∧
      (tree.nodes.map (·.fields)).filter (· ≠ []) =
        [[(.name, 2), (.name, 5)], [(.variadic, 2)], [(.name, 3)], [(.variadic, 1)],
          [(.name, 1)]] ∧
      tree.kind? = some .sourceFile ∧
        ∀ n ∈ tree.nodes, n.FieldsFit ∧ n.VariadicsFit ∧ n.ViewsFit := by
  intro tokens
  have hfields : (parseTokens "a.hsl" tokens).toOption.map
      (fun tree => (tree.nodes.map (·.fields)).filter (· ≠ [])) =
        some [[(.name, 2), (.name, 5)], [(.variadic, 2)], [(.name, 3)], [(.variadic, 1)],
          [(.name, 1)]] := by
    decide +kernel
  obtain ⟨tree, htree, hnodes⟩ := Option.map_eq_some_iff.mp hfields
  have hparse : parseTokens "a.hsl" tokens = .ok tree := by
    cases hresult : parseTokens "a.hsl" tokens with
    | error d =>
      rw [hresult] at htree
      cases htree
    | ok found =>
      rw [hresult] at htree
      exact congrArg Except.ok (Option.some.inj htree)
  exact ⟨tree, hparse, hnodes, parseTokens_fields_and_views hparse⟩

end HslTree
