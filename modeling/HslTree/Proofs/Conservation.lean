import HslTree.Proofs.RuleSpelling

/-! Tokens are conserved, whatever the tables of the grammar say. What a step takes off the stream
is what it adds to the draft, in order; a step that fails may lose some of it, but adds nothing
else. -/

namespace HslTree

open Builder

/-- Tokens without the end marks among them. An end mark that is moved into a draft stays in the
stream as well, so drafts may hold it any number of times. -/
def properTokens (tokens : List Token) : List Token := tokens.filter (·.kind ≠ .endOfInput)

theorem properTokens_append (ts us : List Token) :
    properTokens (ts ++ us) = properTokens ts ++ properTokens us := List.filter_append ..

theorem properTokens_of_no_end {ts : List Token} (h : ∀ t ∈ ts, t.kind ≠ .endOfInput) :
    properTokens ts = ts := List.filter_eq_self.mpr (by simpa using h)

structure Stream.Drops (s : Stream) (ts : List Token) (s' : Stream) : Prop where
  pending : s.pending = ts ++ s'.pending
  last : s'.last = s.last

namespace Stream.Drops

variable {s s' s'' : Stream} {ts us : List Token}

theorem refl (s : Stream) : s.Drops [] s := ⟨rfl, rfl⟩

theorem trans (h : s.Drops ts s') (h' : s'.Drops us s'') : s.Drops (ts ++ us) s'' :=
  ⟨by rw [h.pending, h'.pending, List.append_assoc], h'.last.trans h.last⟩

theorem closed (h : s.Drops ts s') (hs : s.Closed) : s'.Closed := hs.of_append h.pending h.last

theorem extras (s : Stream) : s.Drops s.extras s.dropExtras :=
  ⟨s.extras_append_dropExtras.symm, rfl⟩

end Stream.Drops

namespace Frame

def kept (f : Frame) : List Token := properTokens (Tree.tokensOf f.draft.children)

/-- What was read between two frames is in the draft. -/
def Keeps (f g : Frame) : Prop := ∃ ts, f.stream.Drops ts g.stream ∧ g.kept = f.kept ++ ts

/-- What was read between two frames is in the draft as far as it is not lost. -/
def Loses (f g : Frame) : Prop := ∃ ts, f.stream.Drops ts g.stream ∧ g.kept.Sublist (f.kept ++ ts)

section

variable {f g h : Frame}

theorem Keeps.refl (f : Frame) : f.Keeps f := ⟨[], .refl _, by rw [List.append_nil]⟩

theorem Keeps.trans (hf : f.Keeps g) (hg : g.Keeps h) : f.Keeps h := by
  obtain ⟨ts, hts, hkept⟩ := hf
  obtain ⟨us, hus, hkept'⟩ := hg
  exact ⟨ts ++ us, hts.trans hus, by rw [hkept', hkept, List.append_assoc]⟩

theorem Keeps.loses (hf : f.Keeps g) : f.Loses g := by
  obtain ⟨ts, hts, hkept⟩ := hf
  exact ⟨ts, hts, by rw [hkept]⟩

theorem Loses.trans (hf : f.Loses g) (hg : g.Loses h) : f.Loses h := by
  obtain ⟨ts, hts, hkept⟩ := hf
  obtain ⟨us, hus, hkept'⟩ := hg
  refine ⟨ts ++ us, hts.trans hus, hkept'.trans ?_⟩
  rw [← List.append_assoc]
  exact hkept.append_right us

theorem Loses.closed (hf : f.Loses g) (hclosed : f.stream.Closed) : g.stream.Closed := by
  obtain ⟨ts, hts, _⟩ := hf
  exact hts.closed hclosed

end

/-- How a step may end: it keeps what it has read, or fails. -/
def Leads {α : Type} (f : Frame) : EStateM.Result Diagnostic Frame α → Prop
  | .ok _ g => f.Keeps g
  | .error _ g => f.Loses g

theorem Keeps.leads {α : Type} {f g : Frame} {r : EStateM.Result Diagnostic Frame α}
    (hf : f.Keeps g) (hr : g.Leads r) : f.Leads r := by
  cases r with
  | ok a h => exact hf.trans hr
  | error d h => exact hf.loses.trans hr

theorem kept_push (s : Stream) (draft : Draft) (trees : List Tree) :
    kept ⟨s, draft.push trees⟩ =
      properTokens (Tree.tokensOf draft.children) ++ properTokens (Tree.tokensOf trees) := by
  rw [kept, Draft.push, Tree.tokensOf_append, properTokens_append]

theorem keeps_flushExtras {f : Frame} (hf : f.stream.Closed) : f.Keeps f.flushExtras := by
  refine ⟨f.stream.extras, .extras _, ?_⟩
  have hextras : ∀ t ∈ f.stream.extras, t.kind ≠ .endOfInput := fun t ht =>
    hf.pending t ((List.takeWhile_prefix _).subset ht)
  rw [flushExtras, kept_push, Tree.tokensOf_leaves, properTokens_of_no_end hextras]
  rfl

/-- The end mark is taken without moving on. -/
theorem keeps_take {f : Frame} (hf : f.stream.Closed) : f.Keeps f.take := by
  unfold take
  split
  · rename_i hpending
    refine ⟨[], .refl _, ?_⟩
    have hlast := hf.last
    rw [kept_push]
    simp [kept, properTokens, Tree.tokensOf, Tree.tokens, hlast]
  · rename_i t rest hpending
    refine ⟨[t], ⟨hpending, rfl⟩, ?_⟩
    have ht : t.kind ≠ .endOfInput := hf.pending t (by simp [hpending])
    rw [kept_push]
    simp [kept, properTokens, Tree.tokensOf, Tree.tokens, ht]

theorem keeps_mark (f : Frame) (field : Field) (index : Nat) :
    f.Keeps { f with draft := f.draft.mark field index } :=
  ⟨[], .refl _, by rw [List.append_nil]; rfl⟩

end Frame

/-- The tokens of the tree that a rule answers are those it has read. -/
def Reader.Conserves (reader : Reader Tree) : Prop :=
  ∀ s : Stream, s.Closed →
    match reader s with
    | .ok tree s' => s.Drops (properTokens tree.tokens) s'
    | .error _ s' => ∃ ts, s.Drops ts s'

namespace Builder

/-- From every frame a step keeps what it reads, or fails. -/
def Conserves {α : Type} (m : Builder α) : Prop := ∀ f : Frame, f.stream.Closed → f.Leads (m f)

namespace Conserves

variable {α β : Type} {m m' : Builder α} {k : α → Builder β}

theorem of_ok (h : ∀ f, f.stream.Closed → ∃ a g, m f = .ok a g ∧ f.Keeps g) : Conserves m := by
  intro f hf
  obtain ⟨a, g, hm, hkeeps⟩ := h f hf
  rw [hm]
  exact hkeeps

theorem pure (a : α) : Conserves (Pure.pure a : Builder α) := of_ok fun f _ => ⟨a, f, rfl, .refl f⟩

theorem throw (d : Diagnostic) : Conserves (MonadExcept.throw d : Builder α) :=
  fun f _ => (Frame.Keeps.refl f).loses

theorem bind (hm : Conserves m) (hk : ∀ a, Conserves (k a)) : Conserves (m >>= k) := by
  intro f hf
  have hstep := hm f hf
  cases hmf : m f with
  | error d g =>
    rw [hmf] at hstep
    rw [bind_error hmf]
    exact hstep
  | ok a g =>
    have hkeeps : f.Keeps g := by
      rw [hmf] at hstep
      exact hstep
    rw [bind_ok hmf]
    exact hkeeps.leads (hk a g (hkeeps.loses.closed hf))

theorem unit (hm : Conserves m) : Conserves (m >>= fun _ => Pure.pure ()) := hm.bind fun _ => pure _

theorem ite {c : Prop} [Decidable c] (hm : Conserves m) (hm' : Conserves m') :
    Conserves (if c then m else m') := by
  split
  · exact hm
  · exact hm'

theorem current : Conserves Builder.current := of_ok fun f _ => ⟨_, f, rfl, .refl f⟩

theorem next : Conserves Builder.next := of_ok fun f _ => ⟨_, f, rfl, .refl f⟩

theorem flushExtras : Conserves Builder.flushExtras :=
  of_ok fun f hf => ⟨(), f.flushExtras, rfl, Frame.keeps_flushExtras hf⟩

theorem mark (field : Field) (index : Nat) : Conserves (Builder.mark field index) :=
  of_ok fun f _ => ⟨(), _, rfl, f.keeps_mark field index⟩

theorem advance : Conserves Builder.advance := by
  refine of_ok fun f hf => ⟨_, _, advance_apply f, ?_⟩
  have hflush := Frame.keeps_flushExtras hf
  exact hflush.trans (Frame.keeps_take (hflush.loses.closed hf))

theorem expectOf (kind : Kind) (expected : List Kind) :
    Conserves (Builder.expectOf kind expected) :=
  .bind .current fun _ => .ite .advance (.throw _)

theorem expect (kind : Kind) : Conserves (Builder.expect kind) := .expectOf kind [kind]

theorem expectOneOf (kinds : List Kind) : Conserves (Builder.expectOneOf kinds) :=
  .bind .current fun _ => .ite .advance (.throw _)

theorem expectNext (kind : Kind) (expected : List Kind) :
    Conserves (Builder.expectNext kind expected) :=
  .bind .next fun _ => .ite .advance (.throw _)

theorem child {reader : Reader Tree} (h : reader.Conserves) : Conserves (Builder.child reader) := by
  intro f hf
  have hflush := Frame.keeps_flushExtras hf
  have hread := h f.stream.dropExtras hf.dropExtras
  rw [child_apply]
  cases hr : reader f.stream.dropExtras with
  | error d s =>
    rw [hr] at hread
    obtain ⟨ts, hts⟩ := hread
    exact hflush.loses.trans ⟨ts, hts, List.sublist_append_left ..⟩
  | ok tree s =>
    rw [hr] at hread
    refine hflush.trans ⟨properTokens tree.tokens, hread, ?_⟩
    have htree : Tree.tokensOf [tree] = tree.tokens := by simp [Tree.tokensOf]
    rw [Frame.kept_push, Frame.flushExtras, Frame.kept_push, Tree.tokensOf_append,
      properTokens_append, htree, List.append_assoc]

/-- By strong induction on what is pending, as only turns that have read something are repeated. -/
theorem iterate {σ : Type} {step : σ → Builder (Option σ)} (h : ∀ x, Conserves (step x)) (x : σ) :
    Conserves (Builder.iterate step x) := by
  intro f hf
  induction hn : f.stream.pending.length using Nat.strongRecOn generalizing f x with
  | ind n ih =>
    have hstep := h x f hf
    rw [Builder.iterate]
    cases hm : step x f with
    | error d g =>
      rw [hm] at hstep
      exact hstep
    | ok y g =>
      have hkeeps : f.Keeps g := by
        rw [hm] at hstep
        exact hstep
      cases y with
      | none => exact hkeeps
      | some y =>
        by_cases hlt : g.stream.pending.length < f.stream.pending.length
        · simp only [if_pos hlt]
          exact hkeeps.leads (ih _ (hn ▸ hlt) y g (hkeeps.loses.closed hf) rfl)
        · simp only [if_neg hlt]
          exact hkeeps

end Conserves

end Builder

/-- The draft of a rule starts empty, so its node holds what the rule has read and no more. -/
theorem Reader.Conserves.build {kind : NodeKind} {steps : Builder Unit}
    (h : Builder.Conserves steps) : (Builder.build kind steps).Conserves := by
  intro s hs
  have hsteps := h ⟨s, .empty kind⟩ hs
  unfold Builder.build
  cases hm : steps ⟨s, .empty kind⟩ with
  | error d g =>
    rw [hm] at hsteps
    obtain ⟨ts, hts, _⟩ := hsteps
    exact ⟨ts, hts⟩
  | ok u g =>
    rw [hm] at hsteps
    obtain ⟨ts, hts, hkept⟩ := hsteps
    have htokens : properTokens (g.draft.finish g.stream.position).tokens = ts := hkept
    change s.Drops (properTokens (g.draft.finish g.stream.position).tokens) g.stream
    rw [htokens]
    exact hts

namespace Rule

variable (grammar : Grammar) {run : Rule → Reader Tree} (hrun : ∀ rule, (run rule).Conserves)
include hrun

theorem externName_conserves (expected : List Kind) : Conserves (externName run expected) :=
  .bind .current fun _ => .ite (.pure _) (.bind (.expectOf _ _) fun _ => .bind (.mark _ _) fun _ =>
    .bind .current fun _ => .ite (.bind (.child (hrun _)) fun _ => .pure _) (.pure _))

theorem bodyStatement_conserves (expected : List Kind) :
    Conserves (bodyStatement grammar run expected) :=
  .bind .current fun _ => .ite (.pure _) (.ite (.throw _)
    (.bind (.child (hrun _)) fun _ => .pure _))

theorem argument_conserves : Conserves (argument grammar run) :=
  .bind .current fun _ => .ite (.pure _) (.ite (.throw _)
    (.bind (.child (hrun _)) fun _ => .pure _))

omit hrun in
theorem stringPart_conserves : Conserves stringPart :=
  .bind .next fun _ => .ite (.bind .advance fun _ => .pure _) (.pure _)

theorem choice_conserves (kind : NodeKind) (table : RuleTable) :
    (choice kind table run).Conserves := by
  intro s hs
  cases hrule : table s.current.kind with
  | none =>
    have hthrow : choice kind table run s = .error (s.current.unexpected table.keys) s := by
      simp only [choice, bind, EStateM.bind, get, getThe, MonadStateOf.get, EStateM.get, hrule]
      rfl
    rw [hthrow]
    exact ⟨[], .refl s⟩
  | some rule =>
    rw [choice_apply hrule]
    exact Reader.Conserves.build (.bind (.child (hrun rule)) fun _ => .pure _) s hs

theorem steps_conserves (rule : Rule) : (steps grammar run rule).Conserves := by
  cases rule with
  | externBlock =>
    exact .build (.bind (.expect _) fun _ => .bind (.iterate (externName_conserves hrun) _) fun _ =>
      .unit (.expect _))
  | function =>
    have hbody := bodyStatement_conserves grammar hrun
    exact .build (.bind (.expect _) fun _ => .bind (.expect _) fun _ => .bind (.mark _ _) fun _ =>
      .bind (.expect _) fun _ => .bind .current fun _ => .ite
        (.bind (.child (hrun _)) fun _ => .bind (.iterate hbody _) fun _ => .unit (.expect _))
        (.bind (.iterate hbody _) fun _ => .unit (.expect _)))
  | variadic =>
    exact .build (.bind (.expect _) fun _ => .bind (.expect _) fun _ => .mark _ _)
  | statement => exact choice_conserves hrun _ _
  | declaration =>
    exact .build (.bind (.expectOneOf _) fun _ => .bind (.expect _) fun _ =>
      .bind (.expectOneOf _) fun _ => .unit (.child (hrun _)))
  | call =>
    exact .build (.bind (.expect _) fun _ => .bind (.expect _) fun _ => .bind (.mark _ _) fun _ =>
      .bind (.iterate (fun _ => argument_conserves grammar hrun) _) fun _ => .unit (.expect _))
  | expression =>
    exact .build (.bind .current fun _ => .ite (.unit .advance)
      (.ite (.unit (.child (hrun _))) (.throw _)))
  | literal => exact choice_conserves hrun _ _
  | integer =>
    exact .build (.bind .current fun _ => .ite
      (.bind .advance fun _ => .unit (.expectNext _ _)) (.unit (.expect _)))
  | string =>
    exact .build (.bind (.expect _) fun _ =>
      .bind (.iterate (fun _ => stringPart_conserves) _) fun _ => .unit (.expectNext _ _))
  | char => exact .build (.unit (.expect _))
  | bool => exact .build (.unit (.expectOneOf _))

omit hrun in
theorem parseWithin_conserves (depth : Nat) (rule : Rule) :
    (parseWithin grammar depth rule).Conserves := by
  induction depth generalizing rule with
  | zero => exact fun s _ => ⟨[], .refl s⟩
  | succ depth ih => exact steps_conserves grammar ih rule

omit hrun in
theorem parse_conserves (rule : Rule) : (rule.parse grammar).Conserves :=
  fun s hs => parseWithin_conserves grammar _ rule s hs

end Rule

end HslTree
