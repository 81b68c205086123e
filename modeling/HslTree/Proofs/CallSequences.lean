import HslTree.Proofs.TokenCursor

/-! Drafts under any sequence of calls, failed calls included. A draft holds the tokens that were
read, each of them once and in order, except for what a failed child has read. -/

namespace HslTree

open Builder

/-- The steps that take a token only if it is of a kind they accept. -/
inductive Demand
  | expect (kind : Kind)
  | expectOf (kind : Kind) (expected : List Kind)
  | expectOneOf (kinds : List Kind)
  | expectNext (kind : Kind) (expected : List Kind)
deriving DecidableEq, Repr

namespace Demand

def run : Demand → Builder Nat
  | expect kind => Builder.expect kind
  | expectOf kind expected => Builder.expectOf kind expected
  | expectOneOf kinds => Builder.expectOneOf kinds
  | expectNext kind expected => Builder.expectNext kind expected

def kinds : Demand → List Kind
  | expect kind | expectOf kind _ | expectNext kind _ => [kind]
  | expectOneOf kinds => kinds

def reported : Demand → List Kind
  | expect kind => [kind]
  | expectOf _ expected | expectNext _ expected => expected
  | expectOneOf kinds => kinds

def token (s : Stream) : Demand → Token
  | expectNext .. => s.next
  | _ => s.current

theorem run_apply (demand : Demand) (f : Frame) :
    demand.run f =
      if (demand.token f.stream).kind ∈ demand.kinds then advance f
      else .error ((demand.token f.stream).unexpected demand.reported) f := by
  cases demand with
  | expect kind =>
    simp only [kinds, List.mem_singleton]
    exact expectOf_apply kind [kind] f
  | expectOf kind expected =>
    simp only [kinds, List.mem_singleton]
    exact expectOf_apply kind expected f
  | expectOneOf kinds => exact expectOneOf_apply kinds f
  | expectNext kind expected =>
    simp only [kinds, List.mem_singleton]
    exact expectNext_apply kind expected f

section Index

variable {tokens : List Token} {f : IndexFrame} {g : Frame}

def token? (tokens : List Token) (f : IndexFrame) : Demand → Option Token
  | expectNext .. => f.next? tokens
  | _ => f.current? tokens

def run? (tokens : List Token) (demand : Demand) (f : IndexFrame) :
    Option (Except Diagnostic Nat × IndexFrame) := do
  let token ← demand.token? tokens f
  if token.kind ∈ demand.kinds then
    (f.advance? tokens).map fun (i, f') => (.ok i, f')
  else some (.error (token.unexpected demand.reported), f)

theorem follows_token? (demand : Demand) (h : f.Follows tokens g) :
    demand.token? tokens f = some (demand.token g.stream) := by
  cases demand with
  | expectNext => exact h.next?
  | expect | expectOf | expectOneOf => exact h.current?

theorem follows_run? (demand : Demand) (h : f.Follows tokens g) :
    ∃ f', demand.run? tokens f = some (demand.run.answer g, f') ∧
      f'.Follows tokens (demand.run.after g) := by
  simp only [run?, demand.follows_token? h, Option.bind_eq_bind, Option.bind_some, Builder.answer,
    Builder.after, demand.run_apply g]
  split
  · obtain ⟨f', hadvance, hfollows⟩ := h.advance?
    rw [hadvance, advance_apply]
    exact ⟨f', rfl, hfollows⟩
  · exact ⟨f, rfl, h⟩

end Index

theorem conserves (demand : Demand) : Conserves demand.run := by
  cases demand with
  | expect kind => exact .expect kind
  | expectOf kind expected => exact .expectOf kind expected
  | expectOneOf kinds => exact .expectOneOf kinds
  | expectNext kind expected => exact .expectNext kind expected

/-- A token that is no extra is the current one, even where it has to come next. -/
theorem token_eq_current (demand : Demand) {s : Stream} (hs : s.Closed)
    (h : (demand.token s).isExtra = false) : demand.token s = s.current := by
  cases demand with
  | expectNext => exact (hs.extras_eq_nil h).2.symm
  | expect | expectOf | expectOneOf => rfl

end Demand

theorem Frame.children_take (f : Frame) :
    f.flushExtras.take.draft.children =
      f.draft.children ++ f.stream.extras.map .leaf ++ [.leaf f.stream.current] := by
  have hcurrent : f.flushExtras.stream.current = f.stream.current := f.stream.current_dropExtras
  have hextras : f.flushExtras.stream.extras = [] := f.stream.extras_dropExtras
  unfold Frame.take
  split
  · rename_i hpending
    have hlast : f.flushExtras.stream.current = f.flushExtras.stream.last := by
      simp [Stream.current, hpending]
    rw [← hcurrent, hlast]
    rfl
  · rename_i t rest hpending
    have ht : t.isExtra = false := by simpa [Stream.extras, hpending] using hextras
    have hfirst : f.flushExtras.stream.current = t := by simp [Stream.current, hpending, ht]
    rw [← hcurrent, hfirst]
    rfl

inductive Call
  | flushExtras
  | advance
  | demand (demand : Demand)
  | child (rule : Rule)
deriving DecidableEq, Repr

namespace Call

variable (grammar : Grammar)

def run : Call → Builder Unit
  | flushExtras => Builder.flushExtras
  | advance => Builder.advance >>= fun _ => pure ()
  | demand d => d.run >>= fun _ => pure ()
  | child rule => Builder.child (rule.parse grammar) >>= fun _ => pure ()

def after (call : Call) (f : Frame) : Frame := (call.run grammar).after f

def losesChild (call : Call) (f : Frame) : Bool :=
  match call, call.run grammar f with
  | child _, .error _ _ => true
  | _, _ => false

def after? (file : String) (tokens : List Token) (call : Call) (f : IndexFrame) :
    Option IndexFrame :=
  match call with
  | flushExtras => some (f.flushExtras tokens)
  | advance => (f.advance? tokens).map (·.2)
  | demand d => (d.run? tokens f).map (·.2)
  | child rule => some (f.child tokens file (rule.parse grammar)).2

theorem run_conserves (call : Call) : Conserves (call.run grammar) := by
  cases call with
  | flushExtras => exact .flushExtras
  | advance => exact .unit .advance
  | demand demand => exact .unit demand.conserves
  | child rule => exact .unit (.child (rule.parse_conserves grammar))

theorem loses_after (call : Call) {f : Frame} (hf : f.stream.Closed) :
    f.Loses (call.after grammar f) := by
  have hrun := call.run_conserves grammar f hf
  unfold after Builder.after
  cases h : call.run grammar f with
  | ok u g =>
    rw [h] at hrun
    exact Frame.Keeps.loses hrun
  | error d g =>
    rw [h] at hrun
    exact hrun

/-- Of the calls that fail, only those for a child have read anything. -/
theorem keeps_after {call : Call} {f : Frame} (hf : f.stream.Closed)
    (hchild : call.losesChild grammar f = false) : f.Keeps (call.after grammar f) := by
  have hrun := call.run_conserves grammar f hf
  unfold after Builder.after
  cases h : call.run grammar f with
  | ok u g =>
    rw [h] at hrun
    exact hrun
  | error d g =>
    cases call with
    | flushExtras => cases h
    | advance => cases h
    | child rule => simp [losesChild, h] at hchild
    | demand demand =>
      by_cases haccepted : (demand.token f.stream).kind ∈ demand.kinds
      · have hok := (demand.run_apply f).trans (if_pos haccepted)
        rw [advance_apply] at hok
        rw [run, bind_ok hok] at h
        cases h
      · rw [run, bind_error ((demand.run_apply f).trans (if_neg haccepted))] at h
        cases h
        exact .refl f

theorem follows_after? (file : String) {tokens : List Token} {f : IndexFrame} {g : Frame}
    (call : Call) (h : f.Follows tokens g) :
    ∃ f', call.after? grammar file tokens f = some f' ∧
      f'.Follows tokens (call.after grammar g) := by
  cases call with
  | flushExtras => exact ⟨_, rfl, h.flushExtras⟩
  | advance =>
    obtain ⟨f', hadvance, hfollows⟩ := h.advance?
    exact ⟨f', by rw [after?, hadvance]; rfl, hfollows⟩
  | demand d =>
    obtain ⟨f', hrun, hfollows⟩ := d.follows_run? h
    rw [after, run, Builder.after_unit]
    exact ⟨f', by rw [after?, hrun]; rfl, hfollows⟩
  | child rule =>
    obtain ⟨f', hchild, hfollows⟩ := h.child (rule.parse_conserves grammar) file
    rw [after, run, Builder.after_unit]
    exact ⟨f', by rw [after?, hchild], hfollows⟩

end Call

section Sequences

variable (grammar : Grammar)

def runAll (calls : List Call) (f : Frame) : Frame :=
  calls.foldl (fun g call => call.after grammar g) f

def IndexFrame.runAll? (file : String) (tokens : List Token) (calls : List Call) (f : IndexFrame) :
    Option IndexFrame :=
  calls.foldlM (fun f call => call.after? grammar file tokens f) f

def childrenSucceed : List Call → Frame → Bool
  | [], _ => true
  | call :: calls, f =>
    !call.losesChild grammar f && childrenSucceed calls (call.after grammar f)

theorem loses_runAll (calls : List Call) {f : Frame} (hf : f.stream.Closed) :
    f.Loses (runAll grammar calls f) := by
  induction calls generalizing f with
  | nil => exact (Frame.Keeps.refl f).loses
  | cons call calls ih =>
    have hcall := call.loses_after grammar hf
    exact hcall.trans (ih (hcall.closed hf))

theorem keeps_runAll {calls : List Call} {f : Frame} (hf : f.stream.Closed)
    (hchildren : childrenSucceed grammar calls f = true) : f.Keeps (runAll grammar calls f) := by
  induction calls generalizing f with
  | nil => exact .refl f
  | cons call calls ih =>
    rw [childrenSucceed, Bool.and_eq_true, Bool.not_eq_true'] at hchildren
    have hcall := Call.keeps_after grammar hf hchildren.1
    exact hcall.trans (ih (hcall.loses.closed hf) hchildren.2)

theorem follows_runAll? (file : String) {tokens : List Token} (calls : List Call) {f : IndexFrame}
    {g : Frame} (h : f.Follows tokens g) :
    ∃ f', f.runAll? grammar file tokens calls = some f' ∧
      f'.Follows tokens (runAll grammar calls g) := by
  induction calls generalizing f g with
  | nil => exact ⟨f, rfl, h⟩
  | cons call calls ih =>
    obtain ⟨f', hcall, hfollows⟩ := call.follows_after? grammar file h
    obtain ⟨f'', hcalls, hfollows'⟩ := ih hfollows
    refine ⟨f'', ?_, hfollows'⟩
    rw [IndexFrame.runAll?, List.foldlM_cons, hcall]
    exact hcalls

end Sequences

/-- What a demand does to a frame. If it fails, nothing. If it succeeds, and the kinds it accepts
are no extras, the token that was asked for is the last child, and its index is the answer. -/
def Demand.Answers (demand : Demand) (f : Frame) : Prop :=
  match demand.run f with
  | .error _ g => (demand.token f.stream).kind ∉ demand.kinds ∧ g = f
  | .ok i g =>
    (demand.token f.stream).kind ∈ demand.kinds ∧
      ((∀ k ∈ demand.kinds, k.isExtra = false) →
        g.draft.children.length = i + 1 ∧
          g.draft.children[i]? = some (.leaf (demand.token f.stream)))

theorem Demand.answers (demand : Demand) {f : Frame} (hf : f.stream.Closed) :
    demand.Answers f := by
  by_cases haccepted : (demand.token f.stream).kind ∈ demand.kinds
  · rw [Answers, (demand.run_apply f).trans (if_pos haccepted), advance_apply]
    refine ⟨haccepted, fun hkinds => ?_⟩
    have htoken := demand.token_eq_current hf (hkinds _ haccepted)
    rw [f.children_take, htoken]
    simp [Nat.add_assoc]
  · rw [Answers, (demand.run_apply f).trans (if_neg haccepted)]
    exact ⟨haccepted, rfl⟩

/-- After any calls the index is not behind the first end mark, the stream stands at it, and the
draft holds tokens from before it only, in order: all of them unless a child has failed. -/
theorem runAll_conserves_tokens (grammar : Grammar) (file : String) (tokens : List Token)
    (kind : NodeKind) (calls : List Call) :
    let start : Frame := ⟨.ofTokens file tokens, .empty kind⟩
    let f := runAll grammar calls start
    (∃ cursor,
      IndexFrame.runAll? grammar file (completed file tokens) calls ⟨0, .empty kind⟩ =
        some ⟨cursor, f.draft⟩ ∧
      f.stream.StandsAt file (completed file tokens) cursor ∧
      f.kept.Sublist ((completed file tokens).take cursor) ∧
      (childrenSucceed grammar calls start = true →
        f.kept = (completed file tokens).take cursor)) ∧
    ∀ demand : Demand, demand.Answers f := by
  intro start f
  have hremains := Stream.remains_completed file tokens
  have hstart : start.stream.Closed := hremains.closed
  have hloses := loses_runAll grammar calls hstart
  refine ⟨?_, fun demand => demand.answers (hloses.closed hstart)⟩
  obtain ⟨ts, hts, hkept⟩ := hloses
  obtain ⟨hstands, htake⟩ := hremains.drops hts
  have hfollows : IndexFrame.Follows (completed file tokens) ⟨0, .empty kind⟩ start :=
    ⟨hremains, rfl⟩
  obtain ⟨⟨cursor, draft⟩, hrun, hcursor, hdraft⟩ := follows_runAll? grammar file calls hfollows
  obtain rfl : draft = f.draft := hdraft
  -- Both the index and what was dropped give the distance of the stream to the end mark.
  have hindex : cursor = 0 + ts.length :=
    Nat.add_right_cancel (hcursor.findIdx_eq.symm.trans hstands.findIdx_eq)
  rw [List.take_zero, List.nil_append, ← hindex] at htake
  refine ⟨cursor, hrun, hcursor.standsAt file, htake.symm ▸ hkept, fun hchildren => ?_⟩
  obtain ⟨us, hus, hall⟩ := keeps_runAll grammar hstart hchildren
  have hsame : us = ts := List.append_cancel_right (hus.pending.symm.trans hts.pending)
  rw [htake, ← hsame]
  exact hall

/-- An end mark in front of other tokens is taken twice, and nothing behind it is. -/
theorem integer_then_end_conserves :
    let tokens := [Token.ofKind .comment, .ofKind .number, .ofKind .endOfInput, .ofKind .number]
    let calls := [Call.child .integer, .advance, .demand (.expect .endOfInput)]
    let start : Frame := ⟨.ofTokens "" tokens, .empty .literal⟩
    let f := runAll .standard calls start
    childrenSucceed .standard calls start = true ∧ f.draft.children.length = 4 ∧
      IndexFrame.runAll? .standard "" (completed "" tokens) calls ⟨0, .empty .literal⟩ =
        some ⟨2, f.draft⟩ ∧
      f.stream.StandsAt "" (completed "" tokens) 2 ∧
      f.kept = [.ofKind .comment, .ofKind .number] := by
  intro tokens calls start f
  have hchildren : childrenSucceed .standard calls start = true := by decide +kernel
  have hlength : f.draft.children.length = 4 := by decide +kernel
  have hindex : (IndexFrame.runAll? .standard "" (completed "" tokens) calls
      ⟨0, .empty .literal⟩).map (·.index) = some 2 := by decide +kernel
  obtain ⟨⟨cursor, hrun, hstands, _, hkept⟩, _⟩ :=
    runAll_conserves_tokens .standard "" tokens .literal calls
  obtain rfl : cursor = 2 := by
    rw [hrun] at hindex
    exact Option.some.inj hindex
  exact ⟨hchildren, hlength, hrun, hstands, hkept hchildren⟩

-- A count without its number fails after its first token, which is then in no draft.
example :
    let start : Frame :=
      ⟨.ofTokens "" [.ofKind .variadic, .ofKind .identifier], .empty .function⟩
    (runAll .standard [.child .variadic] start).kept = [] ∧
      (runAll .standard [.child .variadic] start).stream.pending = [.ofKind .identifier] := by
  decide +kernel

end HslTree
