import HslTree.Grammar.Parse
import HslTree.Proofs.Spelling

/-! Every rule of the grammar spells its production. The rules are taken from the innermost
outwards: a rule is only asked about the rules below it. -/

namespace HslTree

open Builder
open scoped Computability

namespace Rule

@[simp]
def nodeKind : Rule → NodeKind
  | externBlock => .externBlock
  | function => .function
  | variadic => .variadic
  | statement => .statement
  | declaration => .declaration
  | call => .call
  | expression => .expression
  | literal => .literal
  | integer => .integer
  | string => .string
  | char => .char
  | bool => .bool

/-- The point that a rule leads to from a point where it may stand. -/
def passes? : Rule → Point → Option Point
  | externBlock, .top | function, .top => some .top
  | variadic, .named => some .names
  | variadic, .header => some .body
  | statement, .header | statement, .body | declaration, .header | declaration, .body
  | call, .header | call, .body => some .body
  | expression, .operand slot | literal, .operand slot | integer, .operand slot
  | string, .operand slot | char, .operand slot | bool, .operand slot => some slot.after
  | _, _ => none

def opens : Rule → Kind → Bool
  | externBlock, k => k = .externOpen
  | function, k => k = .functionOpen
  | variadic, k => k = .variadic
  | statement, k => (Grammar.standard.statements k).isSome
  | declaration, k => k ∈ declarationIntros
  | call, k => k = .callOpen
  | expression, k => k = .identifier || (Grammar.standard.literals k).isSome
  | literal, k => (Grammar.standard.literals k).isSome
  | integer, k => k = .minus || k = .number
  | string, k => k = .quote
  | char, k => k = .char
  | bool, k => k = .pointOfView || k = .impossible

/-- A rule is run where it may stand and, but for the value of a declaration, only on a token that
it may start with. -/
def Meets (file : String) (rule : Rule) (reader : Reader Tree) : Prop :=
  ∀ q p s, s.Closed → s.extras = [] → rule.passes? q = some p →
    rule.opens s.current.kind = true ∨ rule = .expression ∧ q = .operand .value →
    Reads file rule.nodeKind q p s reader

theorem isTight_of_passes? {rule : Rule} {q p : Point} (h : rule.passes? q = some p) :
    q.isTight = false := by
  cases q <;> cases rule <;> simp_all [passes?, Point.isTight]

theorem operand_of_passes? {rule : Rule} {q p : Point} (h : rule.passes? q = some p)
    (hrule : rule ∈ [expression, literal, integer, string, char, bool]) :
    ∃ slot, q = .operand slot ∧ p = slot.after := by
  simp only [List.mem_cons, List.not_mem_nil, or_false] at hrule
  rcases hrule with rfl | rfl | rfl | rfl | rfl | rfl <;> cases q <;> simp [passes?] at h
  all_goals exact ⟨_, rfl, h.symm⟩

section

variable {file : String} {kind : NodeKind} {q p : Point} {f : Frame} {run : Rule → Reader Tree}

theorem Meets.child {rule : Rule} {reader : Reader Tree} (h : Meets file rule reader)
    (hf : f.Ready file kind) (hkind : kind.isTight = false) (hpass : rule.passes? q = some p)
    (hopen : rule.opens f.stream.current.kind = true ∨ rule = .expression ∧ q = .operand .value) :
    Spells file kind q f (Builder.child reader) (aNode rule.nodeKind) fun _ r _ => r = p := by
  refine .child hf (isTight_of_passes? hpass) hkind ?_
  refine h q p _ hf.closed.dropExtras f.stream.extras_dropExtras hpass ?_
  rwa [f.stream.current_dropExtras]

theorem variadic_meets : Meets file .variadic (steps .standard run .variadic) := by
  intro q p s hs hextras hpass hopen
  have hcurrent : s.current.kind = .variadic := by simpa [opens] using hopen
  obtain ⟨mid, hmid, htight, hexpected, hnumber⟩ : ∃ mid : Point, q.next? .variadic = some mid ∧
      mid.isTight = false ∧ mid.expected = [.number] ∧ mid.next? .number = some p := by
    cases q <;> cases hpass
    · exact ⟨.externCount, rfl, rfl, rfl, rfl⟩
    · exact ⟨.functionCount, rfl, rfl, rfl, rfl⟩
  refine reads_build (by decide) (.bind (.expectOf_current (ready_empty hs fun _ => hextras)
    hcurrent (by decide) hmid (fun _ => hextras) rfl) ?_)
  rintro _ _ g hg rfl
  exact .expectOf_mark hg (by decide) htight hnumber (NodeKind.not_tight rfl) rfl hexpected.symm
    (by simp)

theorem char_meets : Meets file .char (steps .standard run .char) := by
  intro q p s hs hextras hpass hopen
  have hcurrent : s.current.kind = .char := by simpa [opens] using hopen
  obtain ⟨slot, rfl, rfl⟩ := operand_of_passes? hpass (by decide)
  have hnext : (Point.operand slot).next? .char = some slot.after := by cases slot <;> rfl
  exact reads_build (by decide) (.return_after (.expectOf_current
    (ready_empty hs fun _ => hextras) hcurrent (by decide) hnext (fun _ => hextras) rfl)
    fun _ _ _ h => h)

theorem bool_meets : Meets file .bool (steps .standard run .bool) := by
  intro q p s hs hextras hpass hopen
  have hcurrent : s.current.kind ∈ [Kind.pointOfView, .impossible] := by
    simpa [opens] using hopen
  obtain ⟨slot, rfl, rfl⟩ := operand_of_passes? hpass (by decide)
  refine reads_build (by decide) (.return_after (.expectOneOf_current
    (ready_empty hs fun _ => hextras) hcurrent (fun _ => hextras) ?_) fun _ _ _ h => h)
  cases slot <;> simp [Point.next?, roleOf, production, Language.mem_add, -add_eq_sup]

theorem integer_meets : Meets file .integer (steps .standard run .integer) := by
  intro q p s hs hextras hpass hopen
  obtain ⟨slot, rfl, rfl⟩ := operand_of_passes? hpass (by decide)
  have hf : Frame.Ready file .integer ⟨s, .empty .integer⟩ := ready_empty hs fun _ => hextras
  refine reads_build (by decide) (.current ?_)
  by_cases hminus : s.current.kind = .minus
  · rw [if_pos hminus]
    have hnext : (Point.operand slot).next? .minus = some (.digits slot) := by cases slot <;> rfl
    refine Spells.weaken (.bind (.advance hf hminus (by decide) hnext (fun _ => hextras) rfl) ?_)
      (mul_le_mul_left le_add_self _) fun _ _ _ h => h
    rintro _ _ g hg rfl
    exact .return_after (.expectNext hg (by decide) rfl rfl rfl rfl (by cases slot <;> rfl)
      (by simp)) fun _ _ _ h => h
  · have hcurrent : s.current.kind = .number := by simpa [opens, hminus] using hopen
    rw [if_neg hminus]
    have hnext : (Point.operand slot).next? .number = some slot.after := by cases slot <;> rfl
    have hone : aToken .number ≤ production .integer := by
      calc aToken .number = 1 * aToken .number := (one_mul _).symm
        _ ≤ (1 + aToken .minus) * aToken .number := mul_le_mul_left le_self_add _
    exact Spells.weaken (.return_after (.expectOf_current hf hcurrent (by decide) hnext
      (fun _ => hextras) rfl) fun _ _ _ h => h) hone fun _ _ _ h => h

theorem stringPart_spells (slot : Slot) {f : Frame} (hf : f.Ready file .string) :
    stringPart f = .ok none f ∧ f.stream.next.kind ≠ .content ∧ f.stream.next.kind ≠ .escape ∨
      Spells file .string (.string slot) f stringPart (aToken .content + aToken .escape)
        fun y p _ => y = some () ∧ p = .string slot := by
  by_cases hpart : f.stream.next.kind = .content ∨ f.stream.next.kind = .escape
  · right
    have hextra : f.stream.next.isExtra = false := by
      rcases hpart with h | h <;> rw [Token.isExtra, h] <;> rfl
    obtain ⟨hextras, hcurrent⟩ := hf.closed.extras_eq_nil hextra
    refine .next ?_
    rw [if_pos hpart]
    rcases hpart with h | h
    · exact Spells.weaken (.return_after (.advance hf (hcurrent ▸ h) (by decide) rfl
        (fun _ => hextras) rfl) fun _ _ _ h => ⟨rfl, h⟩) le_self_add fun _ _ _ h => h
    · exact Spells.weaken (.return_after (.advance hf (hcurrent ▸ h) (by decide) rfl
        (fun _ => hextras) rfl) fun _ _ _ h => ⟨rfl, h⟩) le_add_self fun _ _ _ h => h
  · left
    refine ⟨?_, not_or.mp hpart⟩
    change (if _ then _ else _ : Builder (Option Unit)) f = _
    rw [if_neg hpart]
    rfl

theorem string_meets : Meets file .string (steps .standard run .string) := by
  intro q p s hs hextras hpass hopen
  have hcurrent : s.current.kind = .quote := by simpa [opens] using hopen
  obtain ⟨slot, rfl, rfl⟩ := operand_of_passes? hpass (by decide)
  have hnext : (Point.operand slot).next? .quote = some (.string slot) := by cases slot <;> rfl
  refine reads_build (by decide) ?_
  rw [nodeKind, show production .string = _ from mul_assoc _ _ _]
  refine .bind (.expectOf_current (ready_empty hs fun _ => hextras) hcurrent (by decide) hnext
    (fun _ => hextras) rfl) ?_
  rintro _ _ g hg rfl
  refine .bind (.iterate (fun _ q _ => q = .string slot)
    (fun q f => q = .string slot ∧ f.stream.next.kind ≠ .content ∧
      f.stream.next.kind ≠ .escape) ?_ ?_ hg rfl) ?_
  · simp [Language.mem_add, -add_eq_sup]
  · rintro _ _ f hf rfl
    rcases stringPart_spells slot hf with h | h
    · exact .inl ⟨h.1, rfl, h.2⟩
    · exact .inr (h.weaken le_rfl fun y p g h => ⟨(), h⟩)
  · rintro _ _ f hf ⟨rfl, hcontent, hescape⟩
    exact .return_after (.expectNext hf (by decide) rfl rfl rfl rfl (by cases slot <;> rfl)
      (by simp [hcontent, hescape])) fun _ _ _ h => h

theorem choice_apply {kind : NodeKind} {table : RuleTable} {rule : Rule} {s : Stream}
    (hrule : table s.current.kind = some rule) :
    choice kind table run s = build kind (Builder.child (run rule) >>= fun _ => pure ()) s := by
  simp only [choice, bind, EStateM.bind, get, getThe, MonadStateOf.get, EStateM.get, hrule]
  rfl

theorem reads_choice {kind : NodeKind} {table : RuleTable} {rule : Rule} {s : Stream}
    (hs : s.Closed) (hextras : s.extras = []) (hkind : kind ≠ .sourceFile)
    (htight : kind.isTight = false) (hrule : table s.current.kind = some rule)
    (hmeets : Meets file rule (run rule)) (hpass : rule.passes? q = some p)
    (hopen : rule.opens s.current.kind = true)
    (hword : [.node rule.nodeKind] ∈ production kind) :
    Reads file kind q p s (choice kind table run) := by
  have hL : aNode rule.nodeKind ≤ production kind := by
    rintro w rfl
    exact hword
  have hchild : Spells file kind q ⟨s, .empty kind⟩ (Builder.child (run rule) >>= fun _ => pure ())
      (production kind) fun _ r _ => r = p :=
    .weaken (.return_after (hmeets.child (ready_empty hs fun _ => hextras) htight hpass
      (.inl hopen)) fun _ _ _ h => h) hL fun _ _ _ h => h
  have hbuild := reads_build hkind hchild
  unfold Reads at hbuild ⊢
  rwa [choice_apply hrule]

theorem literal_meets (hinteger : Meets file .integer (run .integer))
    (hstring : Meets file .string (run .string)) (hchar : Meets file .char (run .char))
    (hbool : Meets file .bool (run .bool)) :
    Meets file .literal (steps .standard run .literal) := by
  intro q p s hs hextras hpass hopen
  obtain ⟨slot, rfl, rfl⟩ := operand_of_passes? hpass (by decide)
  have hsome : (Grammar.standard.literals s.current.kind).isSome = true := by
    simpa [opens] using hopen
  obtain ⟨rule, hrule⟩ := Option.isSome_iff_exists.mp hsome
  have hcases : Meets file rule (run rule) ∧ rule.opens s.current.kind = true ∧
      rule.passes? (.operand slot) = some slot.after ∧
      [.node rule.nodeKind] ∈ production .literal := by
    cases hk : s.current.kind <;> rw [hk] at hrule <;> cases hrule <;>
      simp [*, opens, passes?, production, Language.mem_add, -add_eq_sup]
  obtain ⟨hmeets, hopens, hpasses, hword⟩ := hcases
  exact reads_choice hs hextras (by decide) rfl hrule hmeets hpasses hopens hword

theorem expression_meets (hliteral : Meets file .literal (run .literal)) :
    Meets file .expression (steps .standard run .expression) := by
  intro q p s hs hextras hpass hopen
  obtain ⟨slot, rfl, rfl⟩ := operand_of_passes? hpass (by decide)
  have hf : Frame.Ready file .expression ⟨s, .empty .expression⟩ :=
    ready_empty hs fun _ => hextras
  refine reads_build (by decide) (.current ?_)
  by_cases hidentifier : s.current.kind = .identifier
  · rw [if_pos hidentifier]
    have hnext : (Point.operand slot).next? .identifier = some slot.after := by
      cases slot <;> rfl
    exact Spells.weaken (.return_after (.advance hf hidentifier (by decide) hnext
      (fun _ => hextras) rfl) fun _ _ _ h => h) le_self_add fun _ _ _ h => h
  · rw [if_neg hidentifier]
    by_cases hsome : (Grammar.standard.literals s.current.kind).isSome = true
    · rw [if_pos hsome]
      exact Spells.weaken (.return_after (hliteral.child hf rfl rfl (.inl hsome))
        fun _ _ _ h => h) le_add_self fun _ _ _ h => h
    · rw [if_neg hsome]
      have hslot : slot = .value := by simpa [opens, hidentifier, hsome] using hopen
      subst hslot
      refine .refuse hf rfl (by decide) ?_ rfl
      simpa [Grammar.expressionStarts, RuleTable.keys, Kind.mem_all, hidentifier] using hsome

theorem declaration_meets (hexpression : Meets file .expression (run .expression)) :
    Meets file .declaration (steps .standard run .declaration) := by
  intro q p s hs hextras hpass hopen
  have hcurrent : s.current.kind ∈ declarationIntros := by simpa [opens] using hopen
  obtain rfl : p = .body := by cases q <;> cases hpass <;> rfl
  refine reads_build (by decide) ?_
  rw [nodeKind, show production .declaration = _ from mul_assoc _ _ _, mul_assoc]
  refine .bind (.expectOneOf_current (p := .declaredName) (ready_empty hs fun _ => hextras)
    hcurrent (fun _ => hextras) ?_) ?_
  · cases q <;> cases hpass <;>
      simp [declarationIntros, Point.next?, roleOf, Language.mem_add, -add_eq_sup]
  rintro _ _ g hg rfl
  refine .bind (.expectOf hg (by decide) rfl rfl (NodeKind.not_tight rfl) rfl rfl (by simp)) ?_
  rintro _ _ g hg rfl
  refine .bind (.expectOneOf (p := .operand .value) hg rfl (NodeKind.not_tight rfl) ?_ rfl) ?_
  · simp [declarationAssigns, Point.next?, roleOf, Language.mem_add, -add_eq_sup]
  rintro _ _ g hg rfl
  exact .return_after (hexpression.child hg rfl rfl (.inr ⟨rfl, rfl⟩)) fun _ _ _ h => h

theorem argument_spells (hexpression : Meets file .expression (run .expression))
    (hf : f.Ready file .call) :
    argument .standard run f = .ok none f ∧ f.stream.current.kind = .callClose ∨
      Spells file .call (.operand .argument) f (argument .standard run) (aNode .expression)
        fun y p _ => y = some () ∧ p = .operand .argument := by
  by_cases hclose : f.stream.current.kind = .callClose
  · left
    refine ⟨?_, hclose⟩
    change (if _ then _ else _ : Builder (Option Unit)) f = _
    rw [if_pos hclose]
    rfl
  · right
    refine .current ?_
    rw [if_neg hclose]
    by_cases hnone : f.stream.current.kind ≠ .identifier ∧
        (Grammar.standard.literals f.stream.current.kind).isNone = true
    · have hexpected : Kind.sorted (Grammar.standard.expressionStarts ++ [.callClose]) =
          (Point.operand .argument).expected := by decide
      refine .refuse hf rfl hexpected ?_ (by rw [if_pos hnone]; rfl)
      simpa [Grammar.expressionStarts, RuleTable.keys, Kind.mem_all, hclose, and_comm] using hnone
    · have hopen : opens .expression f.stream.current.kind = true := by
        simp only [opens, Bool.or_eq_true, decide_eq_true_eq]
        simpa [imp_iff_not_or, Option.isSome_iff_ne_none] using hnone
      refine .congr (by rw [if_neg hnone]) (.return_after (hexpression.child hf rfl rfl
        (.inl hopen)) fun _ _ _ h => ⟨rfl, h⟩)

theorem call_meets (hexpression : Meets file .expression (run .expression)) :
    Meets file .call (steps .standard run .call) := by
  intro q p s hs hextras hpass hopen
  have hcurrent : s.current.kind = .callOpen := by simpa [opens] using hopen
  obtain ⟨hnext, rfl⟩ : q.next? .callOpen = some .callee ∧ p = .body := by
    cases q <;> cases hpass <;> exact ⟨rfl, rfl⟩
  refine reads_build (by decide) ?_
  rw [nodeKind, show production .call = _ from mul_assoc _ _ _, mul_assoc]
  refine .bind (.expectOf_current (ready_empty hs fun _ => hextras) hcurrent (by decide) hnext
    (fun _ => hextras) rfl) ?_
  rintro _ _ g hg rfl
  refine .bind_bind
    (.expectOf_mark hg (by decide) rfl rfl (NodeKind.not_tight rfl) rfl rfl (by simp)) ?_
  rintro _ _ g hg rfl
  refine .bind (.iterate (fun _ q _ => q = .operand .argument)
    (fun q f => q = .operand .argument ∧ f.stream.current.kind = .callClose) ?_ ?_ hg rfl) ?_
  · simp
  · rintro _ _ f hf rfl
    rcases argument_spells hexpression hf with h | h
    · exact .inl ⟨h.1, rfl, h.2⟩
    · exact .inr (h.weaken le_rfl fun y p g h => ⟨(), h⟩)
  · rintro _ _ f hf ⟨rfl, hclose⟩
    exact .return_after (.expectOf_current hf hclose (by decide) rfl
      (by simp [Point.isTight, NodeKind.isTight]) rfl) fun _ _ _ h => h

theorem statement_meets (hcall : Meets file .call (run .call))
    (hdeclaration : Meets file .declaration (run .declaration)) :
    Meets file .statement (steps .standard run .statement) := by
  intro q p s hs hextras hpass hopen
  obtain rfl : p = .body := by cases q <;> cases hpass <;> rfl
  have hsome : (Grammar.standard.statements s.current.kind).isSome = true := by
    simpa [opens] using hopen
  obtain ⟨rule, hrule⟩ := Option.isSome_iff_exists.mp hsome
  have hcases : Meets file rule (run rule) ∧ rule.opens s.current.kind = true ∧
      rule.passes? q = some .body ∧ [.node rule.nodeKind] ∈ production .statement := by
    cases hk : s.current.kind <;> rw [hk] at hrule <;> cases hrule <;> cases q <;> cases hpass <;>
      simp [*, opens, passes?, production, declarationIntros, Language.mem_add, -add_eq_sup]
  obtain ⟨hmeets, hopens, hpasses, hword⟩ := hcases
  exact reads_choice hs hextras (by decide) rfl hrule hmeets hpasses hopens hword

/-- The kinds reported inside an extern block depend on whether a count may follow. -/
def NameExpected (expected : List Kind) (q : Point) (f : Frame) : Prop :=
  expected = [.identifier, .externClose] ∧ q = .names ∨
    expected = [.identifier, .variadic, .externClose] ∧ q = .named ∧
      f.stream.current.kind ≠ .variadic

theorem externName_spells (hvariadic : Meets file .variadic (run .variadic))
    (hf : f.Ready file .externBlock) {expected : List Kind} (hq : NameExpected expected q f) :
    externName run expected f = .ok none f ∧
        ((q = .names ∨ q = .named) ∧ f.stream.current.kind = .externClose) ∨
      Spells file .externBlock q f (externName run expected)
        (aToken .identifier * (1 + aNode .variadic))
        fun y p g => ∃ z, y = some z ∧ NameExpected z p g := by
  have hpoint : (q = .names ∨ q = .named) ∧ q.isTight = false ∧
      q.next? .identifier = some .named ∧ Kind.sorted expected = q.expected := by
    rcases hq with ⟨rfl, rfl⟩ | ⟨rfl, rfl, _⟩
    · exact ⟨.inl rfl, rfl, rfl, by decide⟩
    · exact ⟨.inr rfl, rfl, rfl, by decide⟩
  obtain ⟨hend, htight, hidentifier, hexpected⟩ := hpoint
  by_cases hclose : f.stream.current.kind = .externClose
  · left
    refine ⟨?_, hend, hclose⟩
    change (if _ then _ else _ : Builder (Option (List Kind))) f = _
    rw [if_pos hclose]
    rfl
  · right
    refine .current ?_
    rw [if_neg hclose]
    have honly : f.stream.current.kind ∈ expected → f.stream.current.kind = .identifier := by
      rcases hq with ⟨rfl, rfl⟩ | ⟨rfl, rfl, hcount⟩ <;> simp_all
    refine .bind_bind (.expectOf_mark hf (by decide) htight hidentifier (NodeKind.not_tight rfl) rfl
      hexpected honly) ?_
    rintro _ _ g hg rfl
    refine .current ?_
    by_cases hcount : g.stream.current.kind = .variadic
    · rw [if_pos hcount]
      have hopen : opens .variadic g.stream.current.kind = true := by simp [opens, hcount]
      exact .weaken (.return_after (hvariadic.child hg rfl rfl (.inl hopen))
        fun _ _ _ h => ⟨_, rfl, .inl ⟨rfl, h⟩⟩) le_add_self fun _ _ _ h => h
    · rw [if_neg hcount]
      exact .weaken (.pure hg ⟨_, rfl, .inr ⟨rfl, rfl, hcount⟩⟩) le_self_add fun _ _ _ h => h

theorem externBlock_meets (hvariadic : Meets file .variadic (run .variadic)) :
    Meets file .externBlock (steps .standard run .externBlock) := by
  intro q p s hs hextras hpass hopen
  have hcurrent : s.current.kind = .externOpen := by simpa [opens] using hopen
  obtain ⟨rfl, rfl⟩ : q = .top ∧ p = .top := by
    cases q <;> cases hpass
    exact ⟨rfl, rfl⟩
  refine reads_build (by decide) ?_
  rw [nodeKind, show production .externBlock = _ from mul_assoc _ _ _]
  refine .bind (.expectOf_current (ready_empty hs fun _ => hextras) hcurrent (by decide) rfl
    (fun _ => hextras) rfl) ?_
  rintro _ _ g hg rfl
  refine .bind (.iterate NameExpected
    (fun q f => (q = .names ∨ q = .named) ∧ f.stream.current.kind = .externClose) ?_ ?_ hg
    (.inl ⟨rfl, rfl⟩)) ?_
  · simp [Language.mem_mul]
  · intro _ _ f hf hq
    exact externName_spells hvariadic hf hq
  · rintro _ _ f hf ⟨rfl | rfl, hclose⟩
    all_goals
      exact .return_after (.expectOf_current hf hclose (by decide) rfl
        (by simp [Point.isTight, NodeKind.isTight]) rfl) fun _ _ _ h => h

/-- The kinds reported inside a function depend on whether a count may follow. -/
def BodyExpected (expected : List Kind) (q : Point) (f : Frame) : Prop :=
  expected = Grammar.standard.statements.keys ++ [.functionClose] ∧ q = .body ∨
    expected = Grammar.standard.statements.keys ++ [.functionClose] ++ [.variadic] ∧
      q = .header ∧ f.stream.current.kind ≠ .variadic

theorem bodyStatement_spells (hstatement : Meets file .statement (run .statement))
    (hf : f.Ready file .function) {expected : List Kind} (hq : BodyExpected expected q f) :
    bodyStatement .standard run expected f = .ok none f ∧
        ((q = .header ∨ q = .body) ∧ f.stream.current.kind = .functionClose) ∨
      Spells file .function q f (bodyStatement .standard run expected) (aNode .statement)
        fun y p g => ∃ z, y = some z ∧ BodyExpected z p g := by
  have hpoint : (q = .header ∨ q = .body) ∧ q.isTight = false ∧
      Rule.statement.passes? q = some .body ∧ Kind.sorted expected = q.expected := by
    rcases hq with ⟨rfl, rfl⟩ | ⟨rfl, rfl, _⟩
    · exact ⟨.inr rfl, rfl, rfl, by decide⟩
    · exact ⟨.inl rfl, rfl, rfl, by decide⟩
  obtain ⟨hend, htight, hpass, hexpected⟩ := hpoint
  by_cases hclose : f.stream.current.kind = .functionClose
  · left
    refine ⟨?_, hend, hclose⟩
    change (if _ then _ else _ : Builder (Option (List Kind))) f = _
    rw [if_pos hclose]
    rfl
  · right
    refine .current ?_
    rw [if_neg hclose]
    by_cases hnone : (Grammar.standard.statements f.stream.current.kind).isNone = true
    · refine .refuse hf htight hexpected ?_ (by rw [if_pos hnone]; rfl)
      rcases hq with ⟨rfl, rfl⟩ | ⟨rfl, rfl, hcount⟩
      · simpa [RuleTable.keys, Kind.mem_all, hclose] using hnone
      · simpa [RuleTable.keys, Kind.mem_all, hclose, hcount] using hnone
    · have hopen : opens .statement f.stream.current.kind = true := by
        simpa [opens, Option.isSome_iff_ne_none] using hnone
      exact .congr (by rw [if_neg hnone]) (.return_after (hstatement.child hf rfl hpass
        (.inl hopen)) fun _ _ _ h => ⟨_, rfl, .inl ⟨rfl, h⟩⟩)

theorem body_spells (hstatement : Meets file .statement (run .statement))
    (hf : f.Ready file .function) {expected : List Kind} (hq : BodyExpected expected q f) :
    Spells file .function q f
      (iterate (bodyStatement .standard run) expected >>= fun _ =>
        expect .functionClose >>= fun _ => pure ())
      ((aNode .statement)∗ * aToken .functionClose) fun _ r _ => r = .top := by
  refine .bind (.iterate BodyExpected
    (fun q f => (q = .header ∨ q = .body) ∧ f.stream.current.kind = .functionClose) ?_ ?_ hf hq) ?_
  · simp
  · intro _ _ g hg hq
    exact bodyStatement_spells hstatement hg hq
  · rintro _ _ g hg ⟨rfl | rfl, hclose⟩
    all_goals
      exact .return_after (.expectOf_current hg hclose (by decide) rfl
        (by simp [Point.isTight, NodeKind.isTight]) rfl) fun _ _ _ h => h

theorem function_meets (hvariadic : Meets file .variadic (run .variadic))
    (hstatement : Meets file .statement (run .statement)) :
    Meets file .function (steps .standard run .function) := by
  intro q p s hs hextras hpass hopen
  have hcurrent : s.current.kind = .functionOpen := by simpa [opens] using hopen
  obtain ⟨rfl, rfl⟩ : q = .top ∧ p = .top := by
    cases q <;> cases hpass
    exact ⟨rfl, rfl⟩
  refine reads_build (by decide) ?_
  simp only [nodeKind, production, mul_assoc]
  refine .bind (.expectOf_current (ready_empty hs fun _ => hextras) hcurrent (by decide) rfl
    (fun _ => hextras) rfl) ?_
  rintro _ _ g hg rfl
  refine .bind_bind
    (.expectOf_mark hg (by decide) rfl rfl (NodeKind.not_tight rfl) rfl rfl (by simp)) ?_
  rintro _ _ g hg rfl
  refine .bind (.expectOf hg (by decide) rfl rfl (NodeKind.not_tight rfl) rfl rfl (by simp)) ?_
  rintro _ _ g hg rfl
  refine .current ?_
  by_cases hcount : g.stream.current.kind = .variadic
  · have hopen : opens .variadic g.stream.current.kind = true := by simp [opens, hcount]
    refine .congr (by rw [if_pos hcount]) (.weaken (.bind (hvariadic.child hg rfl rfl (.inl hopen))
      ?_) (mul_le_mul_left le_add_self _) fun _ _ _ h => h)
    rintro _ _ g hg rfl
    exact body_spells hstatement hg (.inl ⟨rfl, rfl⟩)
  · refine .congr (by rw [if_neg hcount]) (.weaken (body_spells hstatement hg
      (.inr ⟨rfl, rfl, hcount⟩)) ?_ fun _ _ _ h => h)
    calc (aNode .statement)∗ * aToken .functionClose
        = 1 * ((aNode .statement)∗ * aToken .functionClose) := (one_mul _).symm
      _ ≤ (1 + aNode .variadic) * ((aNode .statement)∗ * aToken .functionClose) :=
          mul_le_mul_left le_self_add _

/-- How many rules can stand inside one another below a rule, itself included. -/
def height : Rule → Nat
  | variadic | integer | string | char | bool => 1
  | literal | externBlock => 2
  | expression => 3
  | declaration | call => 4
  | statement => 5
  | function => 6

theorem steps_meets {rule : Rule} (h : ∀ part : Rule, part.height < rule.height →
    Meets file part (run part)) : Meets file rule (rule.steps .standard run) := by
  cases rule with
  | externBlock => exact externBlock_meets (h _ (by decide))
  | function => exact function_meets (h _ (by decide)) (h _ (by decide))
  | variadic => exact variadic_meets
  | statement => exact statement_meets (h _ (by decide)) (h _ (by decide))
  | declaration => exact declaration_meets (h _ (by decide))
  | call => exact call_meets (h _ (by decide))
  | expression => exact expression_meets (h _ (by decide))
  | literal =>
    exact literal_meets (h _ (by decide)) (h _ (by decide)) (h _ (by decide)) (h _ (by decide))
  | integer => exact integer_meets
  | string => exact string_meets
  | char => exact char_meets
  | bool => exact bool_meets

theorem parseWithin_meets (file : String) {rule : Rule} {depth : Nat}
    (h : rule.height ≤ depth) : Meets file rule (rule.parseWithin .standard depth) := by
  induction depth generalizing rule with
  | zero => cases rule <;> simp [height] at h
  | succ depth ih =>
    refine steps_meets fun part hpart => ih ?_
    omega

theorem height_le_depth (rule : Rule) (s : Stream) :
    rule.height ≤ chainLimit * (s.pending.length + 1) := by
  have hheight : rule.height ≤ chainLimit := by cases rule <;> decide
  exact hheight.trans (Nat.le_mul_of_pos_right _ (Nat.succ_pos _))

theorem parse_meets (file : String) (rule : Rule) : Meets file rule (rule.parse .standard) := by
  intro q p s hs hextras hpass hopen
  have hreads :=
    parseWithin_meets file (rule.height_le_depth s) q p s hs hextras hpass hopen
  unfold Reads at hreads ⊢
  rwa [parse]

end

end Rule

end HslTree
