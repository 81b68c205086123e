import HslTree.Proofs.Layout
import HslTree.Proofs.Viability

/-! Every rule reads its derivation trees back from their leaves, so the parser returns each
derivation tree of a file, and no two of them have the same leaves. -/

namespace HslTree

open Builder
open scoped Computability

/-- A reader that returns the trees of a rule, run on their leaves. -/
def Rebuilds (file : String) (rule : Rule) (reader : Reader Tree) : Prop :=
  ∀ tree s, Derivation file tree → tree.symbol = .node rule.nodeKind →
    reader (s.before tree.tokens) = .ok tree s

section

variable {file : String} {kind : NodeKind} {rule : Rule} {reader : Reader Tree}
  {stop : Stream → Prop}

theorem Rebuilds.child (h : Rebuilds file rule reader) :
    Lays file kind (Builder.child reader) (aNode rule.nodeKind) stop fun _ => True := by
  intro done cs s hcs hsymbols _
  obtain ⟨gap, c, rfl, hgap, _, hsymbol, hderived, _⟩ := hcs.single hsymbols
  obtain ⟨t, ts, htokens, ht, _⟩ := hderived.first_token hsymbol
  have hreader := h c s hderived hsymbol
  have hstream : s.before (Tree.tokensOf (gap.map .leaf ++ [c])) =
      ⟨gap ++ t :: (ts ++ s.pending), s.last⟩ := by
    rw [Stream.before_single, htokens, List.cons_append]
  have hdrop : (⟨gap ++ t :: (ts ++ s.pending), s.last⟩ : Stream).dropExtras =
      s.before c.tokens := by
    rw [Stream.dropExtras_gap hgap ht, htokens]
    rfl
  have hrole : c.role kind = none := by
    cases c with
    | leaf => cases hsymbol
    | node => rfl
  refine ⟨done.length + gap.length, trivial, ?_⟩
  rw [hstream, child_apply]
  simp only [hdrop, hreader, Stream.extras_gap hgap ht]
  rw [Draft.push_of done (symbols_leaves hgap) hrole]
  rfl

theorem rebuilds_build (rule : Rule) {m : Builder Unit} (hm : Lays file rule.nodeKind m
    (production rule.nodeKind) (fun _ => True) fun _ => True) :
    Rebuilds file rule (build rule.nodeKind m) := by
  intro tree s hderived hsymbol
  cases hderived with
  | leaf => cases hsymbol
  | @node kind children hchildren hsymbols hextras =>
    obtain rfl : kind = rule.nodeKind := by simpa [nodeOf, Tree.symbol] using hsymbol
    have hne : children ≠ [] := by
      rintro rfl
      exact nil_notMem_production rule.nodeKind_ne_sourceFile hsymbols
    have hlaid : Laid file rule.nodeKind children :=
      ⟨hchildren, hextras.last rule.nodeKind_ne_sourceFile, hextras.tight⟩
    obtain ⟨_, _, hrun⟩ := hm [] children s hlaid hsymbols trivial
    rw [List.nil_append] at hrun
    have htree := Draft.finish_of file rule.nodeKind children s.position (.inl hne)
    have hbuild : build rule.nodeKind m (s.before (Tree.tokensOf children)) =
        .ok ((Draft.of rule.nodeKind children).finish s.position) s := by
      unfold build
      rw [show Draft.empty rule.nodeKind = .of rule.nodeKind [] from rfl, hrun]
    exact hbuild.trans (by rw [htree])

end

namespace Rule

section

variable {file : String} {run : Rule → Reader Tree}

theorem variadic_rebuilds : Rebuilds file .variadic (steps .standard run .variadic) :=
  rebuilds_build .variadic (.bind (.expectOf rfl) (fun _ _ => .expectOf_mark rfl) .any)

theorem char_rebuilds : Rebuilds file .char (steps .standard run .char) :=
  rebuilds_build .char (.return_after (.expectOf rfl) trivial)

theorem bool_rebuilds : Rebuilds file .bool (steps .standard run .bool) := by
  have hpoint : Lays file .bool (expectOneOf [.pointOfView, .impossible]) (aToken .pointOfView)
      (fun _ => True) fun _ => True := .expectOneOf (by decide) rfl
  have himpossible : Lays file .bool (expectOneOf [.pointOfView, .impossible])
      (aToken .impossible) (fun _ => True) fun _ => True := .expectOneOf (by decide) rfl
  exact rebuilds_build .bool (.return_after (hpoint.add himpossible) trivial)

theorem integer_rebuilds : Rebuilds file .integer (steps .standard run .integer) := by
  refine rebuilds_build .integer ?_
  simp only [nodeKind, production, add_mul, one_mul]
  refine .add ?_ ?_
  · refine .current (P := (· = .number)) (.token fun _ h => h) fun t ht => ?_
    rw [if_neg (by simp [ht])]
    exact .return_after (.expectOf rfl) trivial
  · refine .current (P := (· = .minus)) (.mul (.token fun _ h => h) .any) fun t ht => ?_
    rw [if_pos ht]
    exact .bind (.advance rfl) (fun _ _ => .return_after (.expectNext rfl rfl) trivial) .any

theorem stringPart_lays : Lays file .string stringPart (aToken .content + aToken .escape)
    (fun _ => True) fun y => ∃ z, y = some z ∧ True := by
  refine .add ?_ ?_
  · refine .next (P := (· = .content)) (.token_next rfl fun _ h => h) fun t ht => ?_
    rw [if_pos (.inl ht)]
    exact .return_after (.advance rfl) ⟨(), rfl, trivial⟩
  · refine .next (P := (· = .escape)) (.token_next rfl fun _ h => h) fun t ht => ?_
    rw [if_pos (.inr ht)]
    exact .return_after (.advance rfl) ⟨(), rfl, trivial⟩

theorem string_rebuilds : Rebuilds file .string (steps .standard run .string) := by
  refine rebuilds_build .string ?_
  simp only [nodeKind, production, mul_assoc]
  refine .bind (.expectOf rfl) (fun _ _ => .bind (.iterate ?_ (fun _ _ => stringPart_lays) ?_ .any
    trivial) (fun _ _ => .return_after (.expectNext rfl rfl) trivial)
    (.token_next rfl fun _ h => h)) .any
  · simp [Language.mem_add, -add_eq_sup]
  · intro _ _
    refine .next (P := (· = .quote)) (.one fun _ h => h) fun t ht => ?_
    rw [if_neg (by simp [ht])]
    exact .pure rfl

def chosen (table : RuleTable) (run : Rule → Reader Tree) : Builder Unit := do
  let token ← current
  match table token.kind with
  | some rule =>
    let _ ← child (run rule)
  | none => throw (token.unexpected table.keys)

theorem choice_eq (kind : NodeKind) (table : RuleTable) (run : Rule → Reader Tree) :
    choice kind table run = build kind (chosen table run) := by
  funext s
  have hchosen : chosen table run ⟨s, .empty kind⟩ =
      (match table s.current.kind with
      | some rule => child (run rule) >>= fun _ => pure ()
      | none => throw (s.current.unexpected table.keys) : Builder Unit) ⟨s, .empty kind⟩ := rfl
  have hchoice : choice kind table run s =
      (match table s.current.kind with
      | some rule => build kind (child (run rule) >>= fun _ => pure ())
      | none => throw (s.current.unexpected table.keys) : Reader Tree) s := rfl
  rw [hchoice, build, hchosen]
  cases table s.current.kind with
  | some rule => rfl
  | none => rfl

theorem chosen_lays {kind : NodeKind} {table : RuleTable} {part : Rule}
    (hpart : Rebuilds file part (run part))
    (htable : ∀ k, part.opens k = true → table k = some part) :
    Lays file kind (chosen table run) (aNode part.nodeKind) (fun _ => True) fun _ => True := by
  refine .current (P := fun k => part.opens k = true) (.node part fun _ h => h) fun t ht => ?_
  simp only [htable t.kind ht]
  exact .return_after hpart.child trivial

theorem literal_rebuilds (hinteger : Rebuilds file .integer (run .integer))
    (hstring : Rebuilds file .string (run .string)) (hchar : Rebuilds file .char (run .char))
    (hbool : Rebuilds file .bool (run .bool)) :
    Rebuilds file .literal (steps .standard run .literal) := by
  rw [steps, choice_eq]
  refine rebuilds_build .literal (.add (.add (.add (chosen_lays hinteger ?_)
    (chosen_lays hstring ?_)) (chosen_lays hchar ?_)) (chosen_lays hbool ?_))
  all_goals
    intro k hk
    cases k <;> simp_all [opens, Grammar.standard]

theorem statement_rebuilds (hcall : Rebuilds file .call (run .call))
    (hdeclaration : Rebuilds file .declaration (run .declaration)) :
    Rebuilds file .statement (steps .standard run .statement) := by
  rw [steps, choice_eq]
  refine rebuilds_build .statement (.add (chosen_lays hcall ?_)
    (chosen_lays hdeclaration ?_))
  all_goals
    intro k hk
    cases k <;> simp_all [opens, Grammar.standard, declarationIntros]

theorem expression_rebuilds (hliteral : Rebuilds file .literal (run .literal)) :
    Rebuilds file .expression (steps .standard run .expression) := by
  refine rebuilds_build .expression (.add ?_ ?_)
  · refine .current (P := (· = .identifier)) (.token fun _ h => h) fun t ht => ?_
    rw [if_pos ht]
    exact .return_after (.advance rfl) trivial
  · refine .current (P := fun k => opens .literal k = true) (.node .literal fun _ h => h)
      fun t ht => ?_
    have hname : t.kind ≠ .identifier := by
      intro hname
      rw [hname] at ht
      cases ht
    have hsome : (Grammar.standard.literals t.kind).isSome = true := ht
    rw [if_neg hname, if_pos hsome]
    exact .return_after hliteral.child trivial

theorem declaration_rebuilds (hexpression : Rebuilds file .expression (run .expression)) :
    Rebuilds file .declaration (steps .standard run .declaration) := by
  refine rebuilds_build .declaration ?_
  simp only [nodeKind, production, mul_assoc]
  have hintro (k : Kind) (hk : k ∈ declarationIntros) : Lays file .declaration
      (expectOneOf declarationIntros) (aToken k) (fun _ => True) fun _ => True :=
    .expectOneOf hk (by cases k <;> rfl)
  have hassign (k : Kind) (hk : k ∈ declarationAssigns) : Lays file .declaration
      (expectOneOf declarationAssigns) (aToken k) (fun _ => True) fun _ => True :=
    .expectOneOf hk (by cases k <;> rfl)
  refine .bind (((hintro _ (by decide)).add (hintro _ (by decide))).add (hintro _ (by decide)))
    (fun _ _ => .bind (.expectOf rfl) (fun _ _ => ?_) .any) .any
  exact .bind ((hassign _ (by decide)).add (hassign _ (by decide)))
    (fun _ _ => .return_after hexpression.child trivial) .any

theorem argument_lays (hexpression : Rebuilds file .expression (run .expression)) :
    Lays file .call (argument .standard run) (aNode .expression) (fun _ => True)
      fun y => ∃ z, y = some z ∧ True := by
  refine .current (P := fun k => opens .expression k = true) (.node .expression fun _ h => h)
    fun t ht => ?_
  have hclose : t.kind ≠ .callClose := by
    intro hclose
    rw [hclose] at ht
    cases ht
  have hstart : ¬(t.kind ≠ .identifier ∧
      (Grammar.standard.literals t.kind).isNone = true) := by
    rintro ⟨hname, hliteral⟩
    simp_all [opens]
  rw [if_neg hclose, if_neg hstart]
  exact .return_after hexpression.child ⟨(), rfl, trivial⟩

theorem call_rebuilds (hexpression : Rebuilds file .expression (run .expression)) :
    Rebuilds file .call (steps .standard run .call) := by
  refine rebuilds_build .call ?_
  simp only [nodeKind, production, mul_assoc]
  refine .bind (.expectOf rfl) (fun _ _ => .bind_bind (.expectOf_mark rfl) (fun _ _ => .bind
    (.iterate ?_ (fun _ _ => argument_lays hexpression) ?_ .any trivial)
    (fun _ _ => .return_after (.expectOf rfl) trivial) (.token fun _ h => h)) .any) .any
  · simp
  · intro _ _
    exact .stop_at

theorem externName_lays (hvariadic : Rebuilds file .variadic (run .variadic))
    (expected : List Kind) :
    Lays file .externBlock (externName run expected) (aToken .identifier * (1 + aNode .variadic))
      (fun s => s.current.kind ≠ .variadic) fun y => ∃ z, y = some z ∧ True := by
  refine .current (P := (· = .identifier)) (.mul (.token fun _ h => h) .any) fun t ht => ?_
  rw [if_neg (by simp [ht])]
  refine .bind_bind (.expectOf_mark rfl) (fun _ _ => .add ?_ ?_) .any
  · refine .current (P := (· ≠ .variadic)) (.one fun _ h => h) fun u hu => ?_
    rw [if_neg hu]
    exact .pure ⟨_, rfl, trivial⟩
  · refine .current (P := fun k => opens .variadic k = true) (.node .variadic fun _ h => h)
      fun u hu => ?_
    rw [if_pos (by simpa [opens] using hu)]
    exact .return_after hvariadic.child ⟨_, rfl, trivial⟩

theorem externBlock_rebuilds (hvariadic : Rebuilds file .variadic (run .variadic)) :
    Rebuilds file .externBlock (steps .standard run .externBlock) := by
  refine rebuilds_build .externBlock ?_
  simp only [nodeKind, production, mul_assoc]
  refine .bind (.expectOf rfl) (fun _ _ => .bind (.iterate ?_
    (fun expected _ => externName_lays hvariadic expected) ?_ ?_ trivial)
    (fun _ _ => .return_after (.expectOf rfl) trivial) (.token fun _ h => h)) .any
  · rintro _ ⟨_, rfl, w, _, rfl⟩
    exact ⟨_, w, rfl, by simp⟩
  · intro _ _
    exact .stop_at
  · exact .kstar (.mul (.token fun _ h => by simp [h]) .any) fun _ h => by simp [h]

theorem bodyStatement_lays (hstatement : Rebuilds file .statement (run .statement))
    (expected : List Kind) :
    Lays file .function (bodyStatement .standard run expected) (aNode .statement) (fun _ => True)
      fun y => ∃ z, y = some z ∧ True := by
  refine .current (P := fun k => opens .statement k = true) (.node .statement fun _ h => h)
    fun t ht => ?_
  have hclose : t.kind ≠ .functionClose := by
    intro hclose
    rw [hclose] at ht
    cases ht
  have hsome : ¬(Grammar.standard.statements t.kind).isNone = true := by
    simpa [opens, Option.isSome_iff_ne_none] using ht
  rw [if_neg hclose, if_neg hsome]
  exact .return_after hstatement.child ⟨_, rfl, trivial⟩

theorem body_lays (hstatement : Rebuilds file .statement (run .statement))
    (expected : List Kind) :
    Lays file .function
      (iterate (bodyStatement .standard run) expected >>= fun _ =>
        expect .functionClose >>= fun _ => pure ())
      ((aNode .statement)∗ * aToken .functionClose) (fun _ => True) fun _ => True := by
  refine .bind (.iterate ?_ (fun expected _ => bodyStatement_lays hstatement expected) ?_ .any
    trivial) (fun _ _ => .return_after (.expectOf rfl) trivial) (.token fun _ h => h)
  · simp
  · intro _ _
    exact .stop_at

theorem function_rebuilds (hvariadic : Rebuilds file .variadic (run .variadic))
    (hstatement : Rebuilds file .statement (run .statement)) :
    Rebuilds file .function (steps .standard run .function) := by
  refine rebuilds_build .function ?_
  simp only [nodeKind, production, mul_assoc]
  refine .bind (.expectOf rfl) (fun _ _ => .bind_bind (.expectOf_mark rfl)
    (fun _ _ => .bind (.expectOf rfl) (fun _ _ => ?_) .any) .any) .any
  rw [add_mul, one_mul]
  refine .add ?_ ?_
  · have hstart : Starts file .function ((aNode .statement)∗ * aToken .functionClose)
        (fun _ => True) fun s => s.current.kind ≠ .variadic := by
      refine .mul (.kstar (.node .statement ?_) fun _ h => h) (.token fun _ h => by simp [h])
      intro s hs hcount
      rw [hcount] at hs
      cases hs
    refine .current (P := (· ≠ .variadic)) hstart fun t ht => ?_
    rw [if_neg ht]
    exact body_lays hstatement _
  · refine .current (P := fun k => opens .variadic k = true)
      (.mul (.node .variadic fun _ h => h) .any) fun t ht => ?_
    rw [if_pos (by simpa [opens] using ht)]
    exact .bind hvariadic.child (fun _ _ => body_lays hstatement _) .any

theorem steps_rebuilds {rule : Rule} (h : ∀ part : Rule, part.height < rule.height →
    Rebuilds file part (run part)) : Rebuilds file rule (rule.steps .standard run) := by
  cases rule with
  | externBlock => exact externBlock_rebuilds (h _ (by decide))
  | function => exact function_rebuilds (h _ (by decide)) (h _ (by decide))
  | variadic => exact variadic_rebuilds
  | statement => exact statement_rebuilds (h _ (by decide)) (h _ (by decide))
  | declaration => exact declaration_rebuilds (h _ (by decide))
  | call => exact call_rebuilds (h _ (by decide))
  | expression => exact expression_rebuilds (h _ (by decide))
  | literal =>
    exact literal_rebuilds (h _ (by decide)) (h _ (by decide)) (h _ (by decide)) (h _ (by decide))
  | integer => exact integer_rebuilds
  | string => exact string_rebuilds
  | char => exact char_rebuilds
  | bool => exact bool_rebuilds

theorem parseWithin_rebuilds (file : String) {rule : Rule} {depth : Nat}
    (h : rule.height ≤ depth) : Rebuilds file rule (rule.parseWithin .standard depth) := by
  induction depth generalizing rule with
  | zero => cases rule <;> simp [height] at h
  | succ depth ih =>
    refine steps_rebuilds fun part hpart => ih ?_
    omega

theorem parse_rebuilds (file : String) (rule : Rule) :
    Rebuilds file rule (rule.parse .standard) := by
  intro tree s hderived hsymbol
  rw [parse]
  exact parseWithin_rebuilds file (rule.height_le_depth _) tree s hderived hsymbol

end

end Rule

theorem definition_lays (file : String) :
    Lays file .sourceFile (definition .standard) (aNode .externBlock + aNode .function)
      (fun _ => True) fun y => ∃ z, y = some z ∧ True := by
  have hpart (part : Rule) (hpart : ∀ k, part.opens k = true → k ≠ .endOfInput ∧
      Grammar.standard.definitions k = some part) :
      Lays file .sourceFile (definition .standard) (aNode part.nodeKind) (fun _ => True)
        fun y => ∃ z, y = some z ∧ True := by
    refine .current (P := fun k => part.opens k = true) (.node part fun _ h => h) fun t ht => ?_
    obtain ⟨hend, hrule⟩ := hpart t.kind ht
    rw [if_neg hend]
    simp only [hrule]
    exact .return_after (part.parse_rebuilds file).child ⟨(), rfl, trivial⟩
  refine .add (hpart .externBlock fun k hk => ?_) (hpart .function fun k hk => ?_)
  · obtain rfl : k = .externOpen := by simpa [Rule.opens] using hk
    exact ⟨by decide, rfl⟩
  · obtain rfl : k = .functionOpen := by simpa [Rule.opens] using hk
    exact ⟨by decide, rfl⟩

theorem definitions_lay (file : String) :
    Lays file .sourceFile (iterate (fun _ => definition .standard) ()) (production .sourceFile)
      (fun s => s.current.kind = .endOfInput) fun _ => True := by
  refine .iterate ?_ (fun _ _ => definition_lays file) ?_ .any trivial
  · simp [Language.mem_add, -add_eq_sup]
  · intro _ _
    exact .stop_at

theorem exists_trimmed (children : List Tree) :
    ∃ (cs : List Tree) (gap : List Token), children = cs ++ gap.map .leaf ∧
      (∀ c ∈ cs.getLast?, c.isExtra = false) ∧ ∀ e ∈ gap, e.isExtra = true := by
  induction children using List.reverseRecOn with
  | nil => exact ⟨[], [], rfl, by simp, by simp⟩
  | append_singleton children c ih =>
    cases hc : c.isExtra with
    | false => exact ⟨children ++ [c], [], by simp, by simp [hc], by simp⟩
    | true =>
      cases c with
      | node => cases hc
      | leaf t =>
        obtain ⟨cs, gap, rfl, hcs, hgap⟩ := ih
        refine ⟨cs, gap ++ [t], by simp, hcs, fun e he => ?_⟩
        rcases List.mem_append.mp he with he | he
        · exact hgap e he
        · rw [List.mem_singleton.mp he]
          exact hc

theorem definitions_run {file : String} {tree : Tree} (htree : Derivation file tree)
    (hsymbol : tree.symbol = .node .sourceFile) {last : Token} (hlast : last.kind = .endOfInput) :
    ∃ g, iterate (fun _ => definition .standard) () ⟨⟨tree.tokens, last⟩, .empty .sourceFile⟩ =
        .ok () g ∧ g.flushExtras.draft.finish (.at file 0) = tree := by
  cases htree with
  | leaf => cases hsymbol
  | @node kind children hchildren hsymbols hextras =>
    obtain rfl : kind = .sourceFile := by simpa [nodeOf, Tree.symbol] using hsymbol
    obtain ⟨cs, gap, rfl, hcs, hgap⟩ := exists_trimmed children
    rw [symbols_append, symbols_leaves hgap, List.append_nil] at hsymbols
    have hlaid : Laid file .sourceFile cs :=
      ⟨fun c hc => hchildren c (by simp [hc]), hcs, NodeKind.not_tight rfl⟩
    have hextras' : Stream.extras ⟨gap, last⟩ = gap := List.takeWhile_eq_self_iff.mpr hgap
    have hcurrent : (Stream.current ⟨gap, last⟩).kind = .endOfInput := by
      rw [Stream.current_extras hgap, hlast]
    obtain ⟨_, _, hrun⟩ := definitions_lay file [] cs ⟨gap, last⟩ hlaid hsymbols hcurrent
    refine ⟨⟨⟨gap, last⟩, .of .sourceFile cs⟩, ?_, ?_⟩
    · have htokens : (nodeOf file .sourceFile (cs ++ gap.map .leaf)).tokens =
          Tree.tokensOf cs ++ gap := by
        rw [nodeOf, Tree.tokens, Tree.tokensOf_append, Tree.tokensOf_leaves]
      rw [htokens]
      exact hrun
    · rw [Frame.flushExtras, hextras', Draft.push_gap_of cs (symbols_leaves hgap)]
      exact Draft.finish_of file _ _ _ (.inr rfl)

/-- A tree of a whole file, with its leaves. -/
structure Derives (file : String) (tree : Tree) (leaves : List Token) : Prop where
  derivation : Derivation file tree
  root : tree.symbol = .node .sourceFile
  leaves : tree.tokens = leaves

theorem Derives.parseTokens {file : String} {tree : Tree} {tokens : List Token}
    (h : Derives file tree (body tokens)) : parseTokens file tokens = .ok tree := by
  have hlast := (Stream.closed_ofTokens file tokens).last
  obtain ⟨g, hrun, hfinish⟩ := definitions_run h.derivation h.root hlast
  have hstream : (⟨tree.tokens, (Stream.ofTokens file tokens).last⟩ : Stream) =
      .ofTokens file tokens := by
    rw [h.leaves]
    rfl
  rw [hstream] at hrun
  rw [parseTokens_apply, hrun]
  exact congrArg Except.ok hfinish

theorem derives_subsingleton (file : String) (leaves : List Token) :
    {tree | Derives file tree leaves}.Subsingleton := by
  rintro tree ⟨htree, hroot, rfl⟩ tree' ⟨htree', hroot', hleaves⟩
  have hlast : (Token.ofKind .endOfInput).kind = .endOfInput := rfl
  obtain ⟨g, hrun, rfl⟩ := definitions_run htree hroot hlast
  obtain ⟨g', hrun', rfl⟩ := definitions_run htree' hroot' hlast
  rw [hleaves, hrun] at hrun'
  cases hrun'
  rfl

/-- The parser accepts the leaves of the grammar's derivation trees, whatever stands behind their
end mark, and returns the only such tree. -/
theorem parseTokens_ok_iff_derives (file : String) (tokens : List Token) (tree : Tree) :
    (parseTokens file tokens = .ok tree ↔ Derives file tree (body tokens)) ∧
      ∀ leaves, {other | Derives file other leaves}.Subsingleton := by
  refine ⟨⟨fun h => ?_, fun h => h.parseTokens⟩, derives_subsingleton file⟩
  obtain ⟨hderivation, hroot, hleaves, _⟩ := parseTokens_derivation h
  exact ⟨hderivation, hroot, hleaves⟩

end HslTree
