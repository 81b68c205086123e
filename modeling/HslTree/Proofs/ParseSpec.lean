import HslTree.Proofs.RuleSpelling

/-! Whole files: what the parser answers is a derivation tree of its tokens, or the first token that
cannot go on. -/

namespace HslTree

open Builder
open scoped Computability

theorem definition_spells {file : String} {f : Frame} (hf : f.Ready file .sourceFile) :
    definition .standard f = .ok none f ∧ f.stream.current.kind = .endOfInput ∨
      Spells file .sourceFile .top f (definition .standard)
        (aNode .externBlock + aNode .function) fun y p _ => y = some () ∧ p = .top := by
  by_cases hend : f.stream.current.kind = .endOfInput
  · left
    refine ⟨?_, hend⟩
    change (if _ then _ else _ : Builder (Option Unit)) f = _
    rw [if_pos hend]
    rfl
  · right
    refine .current ?_
    rw [if_neg hend]
    cases hrule : Grammar.standard.definitions f.stream.current.kind with
    | none =>
      have hexpected : Kind.sorted (Grammar.standard.definitions.keys ++ [.endOfInput]) =
          Point.top.expected := by decide
      refine .refuse hf rfl hexpected ?_ rfl
      simp [RuleTable.keys, Kind.mem_all, hrule, hend]
    | some rule =>
      have hcases : rule.opens f.stream.current.kind = true ∧ rule.passes? .top = some .top ∧
          aNode rule.nodeKind ≤ aNode .externBlock + aNode .function := by
        cases hk : f.stream.current.kind <;> rw [hk] at hrule <;> cases hrule
        · exact ⟨rfl, rfl, le_self_add⟩
        · exact ⟨rfl, rfl, le_add_self⟩
      obtain ⟨hopen, hpass, hL⟩ := hcases
      exact .weaken (.return_after ((rule.parse_meets file).child hf rfl hpass (.inl hopen))
        fun _ _ _ h => ⟨rfl, h⟩) hL fun _ _ _ h => h

theorem definitions_spell {file : String} {f : Frame} (hf : f.Ready file .sourceFile) :
    Spells file .sourceFile .top f (iterate (fun _ => definition .standard) ())
      (production .sourceFile)
      fun _ q g => q = .top ∧ g.stream.current.kind = .endOfInput := by
  refine .iterate (fun _ q _ => q = .top)
    (fun q g => q = .top ∧ g.stream.current.kind = .endOfInput) ?_ ?_ hf rfl
  · simp [Language.mem_add, -add_eq_sup]
  · rintro _ _ g hg rfl
    rcases definition_spells hg with h | h
    · exact .inl ⟨h.1, rfl, h.2⟩
    · exact .inr (h.weaken le_rfl fun _ _ _ h => ⟨(), h⟩)

/-- The extras behind the last definition are children of the file. -/
theorem finish_flushExtras {file : String} {f : Frame} (hf : f.Ready file .sourceFile)
    (hend : f.stream.current.kind = .endOfInput) :
    f.flushExtras.draft.finish (.at file 0) =
      nodeOf file .sourceFile (f.draft.children ++ f.stream.pending.map .leaf) := by
  have hextras := hf.closed.extras_eq_pending hend
  have hgap : symbols (f.stream.pending.map .leaf) = [] :=
    symbols_leaves (hextras ▸ f.stream.extras_isExtra)
  rw [Frame.flushExtras, hextras, hf.draft, Draft.push_gap_of _ hgap]
  exact Draft.finish_of file _ _ _ (.inr rfl)

theorem parseTokens_apply (file : String) (tokens : List Token) :
    parseTokens file tokens =
      match iterate (fun _ => definition .standard) ()
        ⟨.ofTokens file tokens, .empty .sourceFile⟩ with
      | .ok _ g => .ok (g.flushExtras.draft.finish (.at file 0))
      | .error d _ => .error d := by
  unfold parseTokens sourceFile
  cases hrun : iterate (fun _ => definition .standard) ()
      ⟨.ofTokens file tokens, .empty .sourceFile⟩ with
  | error d g => rw [bind_error hrun]
  | ok a g =>
    rw [bind_ok hrun]
    rfl

theorem parseTokens_spells (file : String) (tokens : List Token) :
    Spells file .sourceFile .top ⟨.ofTokens file tokens, .empty .sourceFile⟩
      (iterate (fun _ => definition .standard) ()) (production .sourceFile)
      fun _ q g => q = .top ∧ g.stream.current.kind = .endOfInput :=
  definitions_spell (ready_empty (Stream.closed_ofTokens file tokens) fun h => absurd rfl h)

theorem parseTokens_stuck {file : String} {tokens : List Token} {d : Diagnostic}
    (h : parseTokens file tokens = .error d) : Stuck .top (.ofTokens file tokens) d := by
  have hspells := parseTokens_spells file tokens
  unfold Spells at hspells
  rw [parseTokens_apply] at h
  split at h
  · cases h
  · rename_i d' g hrun
    cases h
    rwa [hrun] at hspells

theorem parseTokens_derivation {file : String} {tokens : List Token} {tree : Tree}
    (h : parseTokens file tokens = .ok tree) :
    Derivation file tree ∧ tree.symbol = .node .sourceFile ∧
      tree.tokens = (Stream.ofTokens file tokens).pending ∧
      Point.top.walk tree.tokens = some .top := by
  have hspells := parseTokens_spells file tokens
  unfold Spells at hspells
  rw [parseTokens_apply] at h
  split at h
  · rename_i a g hrun
    rw [hrun] at hspells
    obtain ⟨cs, q, hgrows, hsymbols, hg, rfl, hend⟩ := hspells
    have hchildren : g.draft.children = cs := hgrows.children
    have hextras : ∀ t ∈ g.stream.pending, t.isExtra = true :=
      hg.closed.extras_eq_pending hend ▸ g.stream.extras_isExtra
    have htokens : Tree.tokensOf (cs ++ g.stream.pending.map .leaf) =
        (Stream.ofTokens file tokens).pending := by
      rw [Tree.tokensOf_append, Tree.tokensOf_leaves]
      exact hgrows.pending.symm
    have htree : nodeOf file .sourceFile (cs ++ g.stream.pending.map .leaf) = tree := by
      rw [← hchildren, ← finish_flushExtras hg hend]
      exact Except.ok.inj h
    subst htree
    have hfit : ExtrasFit .sourceFile (cs ++ g.stream.pending.map .leaf) :=
      ⟨fun h => absurd rfl h, fun h => absurd rfl h, NodeKind.not_tight rfl⟩
    refine ⟨.node ?_ ?_ hfit, rfl, htokens, ?_⟩
    · intro c hc
      rcases List.mem_append.mp hc with hc | hc
      · exact hg.derived c (hchildren ▸ hc)
      · obtain ⟨t, _, rfl⟩ := List.mem_map.mp hc
        exact .leaf t
    · rwa [symbols_append, symbols_leaves hextras, List.append_nil]
    · change Point.top.walk (Tree.tokensOf (cs ++ g.stream.pending.map .leaf)) = some .top
      rw [Tree.tokensOf_append, Tree.tokensOf_leaves, Point.walk_append_of hgrows.walk,
        Point.walk_extras rfl hextras]
  · cases h

end HslTree
