import HslTree.Proofs.Derivation
import HslTree.Proofs.StringUnits
import HslTree.Tree.Sexp

/-! The shape of a tree that its S-expression shows. An S-expression can be read in one way only, so
two of them are equal just if the shapes are. -/

namespace HslTree

/-- The shape of a tree: what stands at its root, and the shapes of its visible children, each with
the field that names it. -/
inductive Skeleton
  | node (symbol : Symbol) (children : List (Option Field × Skeleton))

namespace Tree

mutual

def skeleton : Tree → Skeleton
  | leaf token => .node (.token token.kind) []
  | node kind children fields span =>
    .node (.node kind) (skeletonItems (node kind children fields span).fieldAt? 0 children)

def skeletonItems (fieldAt? : Nat → Option Field) :
    Nat → List Tree → List (Option Field × Skeleton)
  | _, [] => []
  | index, tree :: rest =>
    if tree.isVisible then
      (fieldAt? index, tree.skeleton) :: skeletonItems fieldAt? (index + 1) rest
    else skeletonItems fieldAt? (index + 1) rest

end

end Tree

namespace Symbol

def label : Symbol → List Char
  | token kind => kind.label.toList
  | node kind => kind.name.toList

def isShown : Symbol → Bool
  | token kind => kind.isVisible
  | node _ => true

def shown : List Symbol :=
  [.identifier, .number, .char, .content, .escape, .comment].map token ++
    [.sourceFile, .externBlock, .function, .variadic, .statement, .call, .declaration, .expression,
      .literal, .integer, .string, .char, .bool].map node

theorem mem_shown {symbol : Symbol} (h : symbol.isShown = true) : symbol ∈ shown := by
  cases symbol with
  | token kind => cases kind <;> first | decide | cases h
  | node kind => cases kind <;> decide

theorem label_inj {symbol symbol' : Symbol} (h : symbol.isShown = true)
    (h' : symbol'.isShown = true) (heq : symbol.label = symbol'.label) : symbol = symbol' := by
  have hnodup : (shown.map label).Nodup := by decide +kernel
  exact List.inj_on_of_nodup_map hnodup (mem_shown h) (mem_shown h') heq

def isLabelChar (c : Char) : Bool := c.isLower || c == '_'

theorem isLabelChar_of_mem_label {symbol : Symbol} (h : symbol.isShown = true) :
    ∀ c ∈ symbol.label, isLabelChar c = true := by
  have hall : shown.all (·.label.all isLabelChar) = true := by decide +kernel
  simpa using List.all_eq_true.mp hall symbol (mem_shown h)

end Symbol

def fieldText : Option Field → List Char
  | none => []
  | some field => field.label.toList ++ [':', ' ']

namespace Skeleton

mutual

def text : Skeleton → List Char
  | node symbol children => '(' :: (symbol.label ++ (itemsText children ++ [')']))

def itemsText : List (Option Field × Skeleton) → List Char
  | [] => []
  | (field?, child) :: rest => ' ' :: (fieldText field? ++ (child.text ++ itemsText rest))

end

end Skeleton

namespace Tree

theorem toList_fieldLabel (kind : NodeKind) (children : List Tree) (fields : List (Field × Nat))
    (span : Span) (index : Nat) :
    (fieldLabel fields index).toList =
      fieldText ((node kind children fields span).fieldAt? index) := by
  unfold fieldLabel
  cases hfind : fields.find? (·.2 = index) with
  | none => simp [fieldAt?, Tree.fields, hfind, fieldText]
  | some entry => simp [fieldAt?, Tree.fields, hfind, fieldText]

mutual

theorem toList_sexp : ∀ tree : Tree, tree.sexp.toList = tree.skeleton.text
  | leaf token => by simp [sexp, skeleton, Skeleton.text, Skeleton.itemsText, Symbol.label]
  | node kind children fields span => by
    have hitems :=
      toList_sexpItems fields _ (toList_fieldLabel kind children fields span) 0 children
    simp [sexp, skeleton, Skeleton.text, Symbol.label, hitems]

theorem toList_sexpItems (fields : List (Field × Nat)) (fieldAt? : Nat → Option Field)
    (hfield : ∀ index, (fieldLabel fields index).toList = fieldText (fieldAt? index))
    (index : Nat) : ∀ children : List Tree, (sexpItems fields index children).toList =
      Skeleton.itemsText (skeletonItems fieldAt? index children)
  | [] => rfl
  | child :: rest => by
    have hchild := toList_sexp child
    have hrest := toList_sexpItems fields fieldAt? hfield (index + 1) rest
    rw [sexpItems, skeletonItems]
    split
    · simp [Skeleton.itemsText, hfield, hchild, hrest]
    · exact hrest

end

end Tree

inductive Skeleton.Proper : Skeleton → Prop
  | node {symbol : Symbol} {children : List (Option Field × Skeleton)}
      (hsymbol : symbol.isShown = true) (hchildren : ∀ item ∈ children, item.2.Proper) :
      Proper (.node symbol children)

namespace Tree

mutual

theorem skeleton_proper : ∀ tree : Tree, tree.isVisible = true → tree.skeleton.Proper
  | leaf _, h => .node h (by simp)
  | node _ children _ _, _ => .node rfl (skeletonItems_proper _ 0 children)

theorem skeletonItems_proper (fieldAt? : Nat → Option Field) (index : Nat) :
    ∀ children : List Tree, ∀ item ∈ skeletonItems fieldAt? index children, item.2.Proper
  | [] => by simp [skeletonItems]
  | child :: rest => by
    have hrest := skeletonItems_proper fieldAt? (index + 1) rest
    rw [skeletonItems]
    split
    · rename_i hvisible
      exact List.forall_mem_cons.mpr ⟨skeleton_proper child hvisible, hrest⟩
    · exact hrest

end

end Tree

section Reading

variable {u v : List Char}

/-- A label ends at the first character that no label has, so it can be told from what follows. -/
theorem label_append_inj {symbol symbol' : Symbol} (h : symbol.isShown = true)
    (h' : symbol'.isShown = true) (hu : ∀ c ∈ u.head?, Symbol.isLabelChar c = false)
    (hv : ∀ c ∈ v.head?, Symbol.isLabelChar c = false)
    (heq : symbol.label ++ u = symbol'.label ++ v) : symbol = symbol' ∧ u = v := by
  obtain ⟨htake, hdrop⟩ := takeWhile_append_stop (Symbol.isLabelChar_of_mem_label h) hu
  obtain ⟨htake', hdrop'⟩ := takeWhile_append_stop (Symbol.isLabelChar_of_mem_label h') hv
  rw [heq] at htake hdrop
  exact ⟨Symbol.label_inj h h' (htake.symm.trans htake'), hdrop.symm.trans hdrop'⟩

/-- A field starts with a letter, and a child without a field with its parenthesis. -/
theorem fieldText_append_inj {field? field?' : Option Field}
    (heq : fieldText field? ++ '(' :: u = fieldText field?' ++ '(' :: v) :
    field? = field?' ∧ u = v := by
  have hname : fieldText (some .name) = ['n', 'a', 'm', 'e', ':', ' '] := by decide
  have hvariadic : fieldText (some .variadic) =
      ['v', 'a', 'r', 'i', 'a', 'd', 'i', 'c', ':', ' '] := by decide
  have hnone : fieldText none = [] := rfl
  rcases field? with _ | _ | _ <;> rcases field?' with _ | _ | _ <;>
    simp [hname, hvariadic, hnone] at heq ⊢ <;> exact heq

namespace Skeleton

theorem exists_text (s : Skeleton) : ∃ tail, s.text = '(' :: tail := by
  cases s
  exact ⟨_, rfl⟩

/-- Behind a label comes a child or the end of the node. -/
theorem head?_itemsText (children : List (Option Field × Skeleton)) (u : List Char) :
    ∀ c ∈ (itemsText children ++ ')' :: u).head?, Symbol.isLabelChar c = false := by
  cases children with
  | nil => simp [itemsText]; decide
  | cons item rest => simp [itemsText]; decide

theorem itemsText_append_inj {children children' : List (Option Field × Skeleton)}
    (hread : ∀ item ∈ children, ∀ t : Skeleton, t.Proper → ∀ u v,
      item.2.text ++ u = t.text ++ v → item.2 = t ∧ u = v)
    (hproper : ∀ item ∈ children', item.2.Proper)
    (heq : itemsText children ++ ')' :: u = itemsText children' ++ ')' :: v) :
    children = children' ∧ u = v := by
  induction children generalizing children' with
  | nil =>
    cases children' with
    | nil => exact ⟨rfl, (List.cons.inj heq).2⟩
    | cons item' rest' => simp [itemsText] at heq
  | cons item rest ih =>
    cases children' with
    | nil => simp [itemsText] at heq
    | cons item' rest' =>
      obtain ⟨field?, child⟩ := item
      obtain ⟨field?', child'⟩ := item'
      obtain ⟨hchild, hrest⟩ := List.forall_mem_cons.mp hread
      obtain ⟨hchild', hrest'⟩ := List.forall_mem_cons.mp hproper
      obtain ⟨tail, htail⟩ := child.exists_text
      obtain ⟨tail', htail'⟩ := child'.exists_text
      simp only [itemsText, List.cons_append, List.append_assoc, List.cons.injEq, true_and] at heq
      have hfields := heq
      rw [htail, htail', List.cons_append, List.cons_append] at hfields
      obtain ⟨rfl, hafter⟩ := fieldText_append_inj hfields
      obtain ⟨rfl, hafter⟩ := hchild child' hchild' _ _ (List.append_cancel_left heq)
      obtain ⟨rfl, huv⟩ := ih hrest hrest' hafter
      exact ⟨rfl, huv⟩

/-- A shape can be told from whatever text follows it. The induction is on the first shape; its
children are read one after the other. -/
theorem Proper.text_append_inj {s : Skeleton} (hs : s.Proper) :
    ∀ t : Skeleton, t.Proper → ∀ u v, s.text ++ u = t.text ++ v → s = t ∧ u = v := by
  induction hs with
  | @node symbol children hsymbol _ ih =>
    intro t ht u v heq
    cases ht with
    | @node symbol' children' hsymbol' hchildren' =>
      simp only [text, List.cons_append, List.append_assoc, List.nil_append, List.cons.injEq,
        true_and] at heq
      obtain ⟨rfl, hitems⟩ := label_append_inj hsymbol hsymbol' (head?_itemsText children u)
        (head?_itemsText children' v) heq
      obtain ⟨rfl, huv⟩ := itemsText_append_inj ih hchildren' hitems
      exact ⟨rfl, huv⟩

end Skeleton

end Reading

theorem Tree.isVisible_of_isNode {tree : Tree} (h : tree.isNode = true) :
    tree.isVisible = true := by
  cases tree with
  | leaf token => cases h
  | node => rfl

/-- S-expressions show the shape of a node and nothing else. -/
theorem sexp_eq_iff_skeleton_eq {s t : Tree} (hs : s.isNode = true) (ht : t.isNode = true) :
    s.sexp = t.sexp ↔ s.skeleton = t.skeleton := by
  have hproper := s.skeleton_proper (Tree.isVisible_of_isNode hs)
  have hproper' := t.skeleton_proper (Tree.isVisible_of_isNode ht)
  rw [← String.toList_inj, Tree.toList_sexp, Tree.toList_sexp]
  constructor
  · intro heq
    exact (hproper.text_append_inj t.skeleton hproper' [] [] (by rw [heq])).1
  · intro heq
    rw [heq]

/-- A field that is doubled, one that names nothing and the tokens left out make no difference. -/
theorem same_shape_same_sexp :
    let s : Tree := .node .externBlock
      [.leaf (.ofKind .externOpen), .leaf (.ofKind .blank), .leaf (.ofKind .identifier),
        .node .variadic [] [] (.empty (.at "" 0))]
      [(.name, 2), (.variadic, 2), (.name, 7)] (.empty (.at "" 0))
    let t : Tree := .node .externBlock
      [.leaf (.ofKind .identifier), .node .variadic [.leaf (.ofKind .minus)] [(.name, 0)]
        (.empty (.at "" 5))]
      [(.name, 0)] (.empty (.at "" 9))
    s.isNode = true ∧ t.isNode = true ∧ s.skeleton = t.skeleton ∧ s.sexp = t.sexp := by
  intro s t
  have hskeleton : s.skeleton = t.skeleton := rfl
  exact ⟨rfl, rfl, hskeleton, (sexp_eq_iff_skeleton_eq rfl rfl).mpr hskeleton⟩

end HslTree
