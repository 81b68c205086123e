import HslTree.Proofs.Coverage
import HslTree.Proofs.ParseSpec

/-! Trees whose leaves stand one behind the other. The spans of their nodes are then those of their
texts, and the children of a node lie side by side. -/

namespace HslTree

open scoped Computability

theorem Position.toNat_at (file : String) {n : Nat} (h : n < 2 ^ 32) :
    (Position.at file n).offset.toNat = n := UInt32.toNat_ofNat_of_lt' h

section Place

variable {file : String}

theorem placeAll_append (a : Nat) (ls ms : List Lexeme) :
    placeAll file a (ls ++ ms) =
      placeAll file a ls ++ placeAll file (a + byteLength (textOf ls)) ms := by
  induction ls generalizing a with
  | nil => simp [placeAll, byteLength]
  | cons l ls ih => simp [placeAll, ih, byteLength_append, Nat.add_assoc]

theorem placeAll_split {a : Nat} {ls : List Lexeme} {xs ys : List Token}
    (h : xs ++ ys = placeAll file a ls) :
    ∃ us vs, ls = us ++ vs ∧ xs = placeAll file a us ∧
      ys = placeAll file (a + byteLength (textOf us)) vs := by
  induction xs generalizing a ls with
  | nil => exact ⟨[], ls, rfl, rfl, by simpa [byteLength] using h⟩
  | cons x xs ih =>
    cases ls with
    | nil => cases h
    | cons l ls =>
      obtain ⟨hx, hrest⟩ := List.cons.inj h
      obtain ⟨us, vs, rfl, rfl, rfl⟩ := ih hrest
      exact ⟨l :: us, vs, rfl, by rw [hx, placeAll], by simp [Nat.add_assoc]⟩

theorem eq_nil_of_placeAll {a : Nat} {ls : List Lexeme} (h : placeAll file a ls = []) :
    ls = [] := by
  cases ls with
  | nil => rfl
  | cons l ls => cases h

theorem placeAll_eq_cons {a : Nat} {ls : List Lexeme} {t : Token} {ts : List Token}
    (h : placeAll file a ls = t :: ts) : ∃ l rest, ls = l :: rest ∧ t = l.place file a ∧
      placeAll file (a + byteLength l.text) rest = ts := by
  cases ls with
  | nil => cases h
  | cons l rest =>
    obtain ⟨rfl, rfl⟩ := List.cons.inj h
    exact ⟨l, rest, rfl, rfl, rfl⟩

theorem values_placeAll (a : Nat) (ls : List Lexeme) :
    String.join ((placeAll file a ls).map (·.value)) = String.ofList (textOf ls) := by
  induction ls generalizing a with
  | nil => rfl
  | cons l ls ih => simp [placeAll, Lexeme.place, String.join_cons, ih, String.ofList_append]

theorem kind_of_mem_placeAll {a : Nat} {ls : List Lexeme} {t : Token}
    (h : t ∈ placeAll file a ls) : ∃ l ∈ ls, t.kind = l.kind := by
  induction ls generalizing a with
  | nil => cases h
  | cons l ls ih =>
    rcases List.mem_cons.mp h with rfl | h
    · exact ⟨l, by simp, rfl⟩
    · obtain ⟨m, hm, hkind⟩ := ih h
      exact ⟨m, by simp [hm], hkind⟩

end Place

section Inner

/-- The symbols that occur in the production of a node. -/
def NodeKind.alphabet : NodeKind → List Symbol
  | sourceFile => [.node .externBlock, .node .function]
  | externBlock => [.token .externOpen, .token .identifier, .node .variadic, .token .externClose]
  | function =>
    [.token .functionOpen, .token .identifier, .token .functionMiddle, .node .variadic,
      .node .statement, .token .functionClose]
  | variadic => [.token .variadic, .token .number]
  | statement => [.node .call, .node .declaration]
  | call => [.token .callOpen, .token .identifier, .node .expression, .token .callClose]
  | declaration =>
    [.token .declareResistance, .token .declareForce, .token .declarePilot, .token .identifier,
      .token .assignFather, .token .assignJudge, .node .expression]
  | expression => [.token .identifier, .node .literal]
  | literal => [.node .integer, .node .string, .node .char, .node .bool]
  | integer => [.token .minus, .token .number]
  | string => [.token .quote, .token .content, .token .escape]
  | char => [.token .char]
  | bool => [.token .pointOfView, .token .impossible]

/-- The words all of whose symbols have a property. -/
def allOf (P : Symbol → Prop) : Language Symbol := {w | ∀ s ∈ w, P s}

variable (P : Symbol → Prop) {L M : Language Symbol}

theorem aToken_le_allOf {k : Kind} (hk : P (.token k)) : aToken k ≤ allOf P := by
  rintro _ rfl
  simpa [allOf] using hk

theorem aNode_le_allOf {k : NodeKind} (hk : P (.node k)) : aNode k ≤ allOf P := by
  rintro _ rfl
  simpa [allOf] using hk

theorem one_le_allOf : (1 : Language Symbol) ≤ allOf P := by
  rintro _ rfl
  simp [allOf]

theorem mul_le_allOf (hL : L ≤ allOf P) (hM : M ≤ allOf P) : L * M ≤ allOf P := by
  rintro _ ⟨u, hu, v, hv, rfl⟩ s hs
  rcases List.mem_append.mp hs with h | h
  · exact hL hu s h
  · exact hM hv s h

theorem add_le_allOf (hL : L ≤ allOf P) (hM : M ≤ allOf P) : L + M ≤ allOf P := by
  intro w hw
  rcases (Language.mem_add ..).mp hw with h | h
  · exact hL h
  · exact hM h

theorem kstar_le_allOf (hL : L ≤ allOf P) : L∗ ≤ allOf P := by
  rintro _ ⟨S, rfl, hS⟩ s hs
  obtain ⟨w, hw, hmem⟩ := List.mem_flatten.mp hs
  exact hL (hS w hw) s hmem

theorem production_le_allOf {kind : NodeKind} (h : ∀ s ∈ kind.alphabet, P s) :
    production kind ≤ allOf P := by
  cases kind
  all_goals
    unfold production
    apply_rules [mul_le_allOf P, add_le_allOf P, kstar_le_allOf P, one_le_allOf P,
      aToken_le_allOf P, aNode_le_allOf P, h]
  all_goals decide

theorem mem_alphabet {kind : NodeKind} {w : List Symbol} (hw : w ∈ production kind) {s : Symbol}
    (hs : s ∈ w) : s ∈ kind.alphabet :=
  production_le_allOf (· ∈ kind.alphabet) (fun _ h => h) hw s hs

def inner : Language Symbol := {w | .node .sourceFile ∉ w}

/-- A file stands in no other node. -/
theorem production_le_inner (kind : NodeKind) : production kind ≤ inner := by
  have hfile : .node .sourceFile ∉ kind.alphabet := by cases kind <;> decide
  exact fun w hw hmem => hfile (mem_alphabet hw hmem)

theorem symbol_ne_of_mem {kind : NodeKind} {children : List Tree}
    (hsymbols : symbols children ∈ production kind) {c : Tree} (hc : c ∈ children) :
    c.symbol ≠ .node .sourceFile := by
  intro hfile
  have hextra := Tree.isExtra_of_symbol hfile
  refine production_le_inner kind hsymbols ?_
  rw [← hfile]
  exact List.mem_map_of_mem (List.mem_filter.mpr ⟨hc, by simp [hextra]⟩)

end Inner

/-- Children that lie side by side between two positions, none of them reversed. -/
def Tiles : Position → List Tree → Position → Prop
  | start, [], stop => start = stop
  | start, c :: cs, stop =>
    c.span.start = start ∧ c.span.start.offset ≤ c.span.stop.offset ∧ Tiles c.span.stop cs stop

theorem Tiles.spanOf {file : String} {start stop : Position} {cs : List Tree}
    (h : Tiles start cs stop) (hcs : cs ≠ []) : spanOf file cs = ⟨start, stop⟩ := by
  induction cs generalizing start with
  | nil => exact absurd rfl hcs
  | cons c cs ih =>
    obtain ⟨rfl, _, hrest⟩ := h
    cases cs with
    | nil =>
      obtain rfl : c.span.stop = stop := hrest
      rfl
    | cons d ds =>
      have hlast := congrArg Span.stop (ih hrest (List.cons_ne_nil d ds))
      simp only [HslTree.spanOf, List.head?_cons, List.getLast?_cons_cons] at hlast ⊢
      cases hl : (d :: ds).getLast? with
      | none => cases List.getLast?_eq_none_iff.mp hl
      | some last =>
        rw [hl] at hlast
        exact congrArg (Span.mk c.span.start) hlast

section Spans

variable {file : String}

theorem Position.at_le {a b : Nat} (hab : a ≤ b) (hb : b < 2 ^ 32) :
    (Position.at file a).offset ≤ (Position.at file b).offset := by
  rw [UInt32.le_iff_toNat_le, Position.toNat_at file hb,
    Position.toNat_at file (Nat.lt_of_le_of_lt hab hb)]
  exact hab

theorem tiles_of_spans {cs : List Tree} {a : Nat} {ls : List Lexeme}
    (hspan : ∀ c ∈ cs, ∀ b us, c.tokens = placeAll file b us →
      b + byteLength (textOf us) < 2 ^ 32 →
      c.span = .between file b (b + byteLength (textOf us)))
    (htokens : Tree.tokensOf cs = placeAll file a ls)
    (hsize : a + byteLength (textOf ls) < 2 ^ 32) :
    Tiles (.at file a) cs (.at file (a + byteLength (textOf ls))) := by
  induction cs generalizing a ls with
  | nil =>
    obtain rfl := eq_nil_of_placeAll htokens.symm
    rfl
  | cons c cs ih =>
    obtain ⟨us, vs, rfl, hc, hcs⟩ := placeAll_split htokens
    rw [textOf_append, byteLength_append, ← Nat.add_assoc] at hsize ⊢
    have hbound : a + byteLength (textOf us) < 2 ^ 32 := by omega
    have hc' := hspan c (by simp) a us hc hbound
    have hrest := ih (fun d hd => hspan d (by simp [hd])) hcs hsize
    rw [Tiles, hc']
    exact ⟨rfl, Position.at_le (Nat.le_add_right _ _) hbound, hrest⟩

/-- A node spans the text of its leaves. A file stands at the start, where one without leaves is
put. -/
theorem Derivation.span_eq {tree : Tree} (h : Derivation file tree) {a : Nat} {ls : List Lexeme}
    (htokens : tree.tokens = placeAll file a ls) (hsize : a + byteLength (textOf ls) < 2 ^ 32)
    (hroot : tree.symbol = .node .sourceFile → a = 0) :
    tree.span = .between file a (a + byteLength (textOf ls)) := by
  induction h generalizing a ls with
  | leaf token =>
    cases ls with
    | nil => cases htokens
    | cons l ls =>
      obtain ⟨rfl, hrest⟩ := List.cons.inj htokens
      obtain rfl := eq_nil_of_placeAll hrest.symm
      simp [Tree.span, Lexeme.place]
  | @node kind children hchildren hsymbols hextras ih =>
    have htiles : Tiles (.at file a) children (.at file (a + byteLength (textOf ls))) :=
      tiles_of_spans (fun c hc b us hb hbound => ih c hc hb hbound fun hfile =>
        absurd hfile (symbol_ne_of_mem hsymbols hc)) htokens hsize
    -- Only a file can be without children, and then the span is not read off them.
    by_cases hne : children = []
    · subst hne
      obtain rfl := eq_nil_of_placeAll htokens.symm
      have hkind : kind = .sourceFile := by
        by_contra hkind
        exact nil_notMem_production hkind hsymbols
      obtain rfl : a = 0 := hroot (congrArg Symbol.node hkind)
      rfl
    · exact htiles.spanOf hne

end Spans

end HslTree
