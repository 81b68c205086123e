import HslTree.Proofs.Viability

/-! Exact syntax errors: the parser blames the first token behind which no accepted list goes on,
and the kinds it reports are those that could have stood there. -/

namespace HslTree

instance : LT Kind := ⟨fun a b => a.ctorIdx < b.ctorIdx⟩

/-- A token list with the end mark that closes it, where it has none at its end. -/
def completed (file : String) (tokens : List Token) : List Token :=
  match tokens.getLast? with
  | none => [.endAt (.at file 0)]
  | some token =>
    if token.kind = .endOfInput then tokens else tokens ++ [.endAt token.span.stop]

/-- A diagnostic is about the token at an index: that token is the first after which no accepted
list goes on, and the kinds reported are all those that could stand in its place. An end mark could
if the tokens before it are a whole file. -/
structure Blames (file : String) (tokens : List Token) (i : Nat) (d : Diagnostic) : Prop where
  viable : Viable file (tokens.take i)
  dead : ¬ Viable file (tokens.take (i + 1))
  found : ∃ t expected, tokens[i]? = some t ∧
    d = ⟨.unexpected expected t.kind t.value, t.span.start⟩ ∧
    expected.Pairwise (· < ·) ∧
    (∀ u : Token, u.isExtra = false →
      (u.kind ∈ expected ↔ Viable file (tokens.take i ++ [u]))) ∧
    ∀ u : Token, u.kind = .endOfInput →
      (u.kind ∈ expected ↔ Accepted file (tokens.take i ++ [u]))

theorem Point.expected_sorted (q : Point) : q.expected.Pairwise (· < ·) := by
  have hall : Kind.all.Pairwise fun a b => a.ctorIdx < b.ctorIdx := by decide
  exact hall.sublist List.filter_sublist

section

variable {file : String} {pre : List Token} {q : Point}

theorem viable_snoc_iff (hwalk : Point.top.walk pre = some q) (u : Token) :
    Viable file (pre ++ [u]) ↔ (q.next? u.kind).isSome := by
  rw [viable_iff, Point.walk_append_of hwalk, Point.walk_singleton]

theorem mem_expected_iff_viable (hwalk : Point.top.walk pre = some q) {u : Token}
    (hu : u.isExtra = false) : u.kind ∈ q.expected ↔ Viable file (pre ++ [u]) := by
  rw [viable_snoc_iff hwalk, Point.mem_expected]
  exact and_iff_right hu

theorem mem_expected_iff_accepted (hwalk : Point.top.walk pre = some q)
    (hpre : ∀ t ∈ pre, t.kind ≠ .endOfInput) {u : Token} (hu : u.kind = .endOfInput) :
    u.kind ∈ q.expected ↔ Accepted file (pre ++ [u]) := by
  have hextra : u.isExtra = false := by rw [Token.isExtra, hu]; rfl
  have hiff : u.kind ∈ q.expected ↔ Viable file (pre ++ [u]) := mem_expected_iff_viable hwalk hextra
  rw [hiff, viable_iff, accepted_iff, body_append_end hpre hu]
  exact Point.walk_isSome_of_end (by simp) hpre hu

theorem blames_of_walk {t : Token} (rest : List Token) (hpre : ∀ u ∈ pre, u.kind ≠ .endOfInput)
    (hwalk : Point.top.walk pre = some q) (hnext : q.next? t.kind = none) :
    Blames file (pre ++ t :: rest) pre.length
      ⟨.unexpected q.expected t.kind t.value, t.span.start⟩ := by
  have htake : (pre ++ t :: rest).take pre.length = pre := List.take_left
  have htake' : (pre ++ t :: rest).take (pre.length + 1) = pre ++ [t] := by
    simp [List.take_append, List.take_of_length_le]
  refine ⟨?_, ?_, t, q.expected, by simp, rfl, q.expected_sorted, ?_, ?_⟩
  · rw [htake, viable_iff, hwalk]
    rfl
  · rw [htake', viable_snoc_iff hwalk, hnext]
    simp
  · intro u hu
    rw [htake]
    exact mem_expected_iff_viable hwalk hu
  · intro u hu
    rw [htake]
    exact mem_expected_iff_accepted hwalk hpre hu

end

theorem completed_eq (file : String) (tokens : List Token) :
    ∃ rest, completed file tokens =
      (Stream.ofTokens file tokens).pending ++ (Stream.ofTokens file tokens).last :: rest := by
  change ∃ rest, completed file tokens = body tokens ++ Stream.endMark file tokens :: rest
  rcases body_cases tokens with hbody | ⟨mark, rest, hsplit, hmark⟩
  · have hno : ∀ t ∈ tokens, t.kind ≠ .endOfInput := fun t ht =>
      no_end_of_mem_body (hbody.symm ▸ ht)
    have hfind : tokens.find? (·.kind = .endOfInput) = none := by
      rw [List.find?_eq_none]
      simpa using hno
    refine ⟨[], ?_⟩
    rw [hbody, completed, Stream.endMark, hfind]
    cases hlast : tokens.getLast? with
    | none => simp [List.getLast?_eq_none_iff.mp hlast]
    | some t => simp [hno t (List.mem_of_getLast? hlast)]
  · have hend : Stream.endMark file tokens = mark := by
      rw [hsplit]
      exact endMark_of_end (fun _ => no_end_of_mem_body) hmark rest
    rw [hend]
    unfold completed
    split
    · rename_i hlast
      rw [List.getLast?_eq_none_iff.mp hlast] at hsplit
      simp at hsplit
    · split
      · exact ⟨rest, hsplit⟩
      · rename_i t _ _
        refine ⟨rest ++ [.endAt t.span.stop], ?_⟩
        rw [← List.cons_append, ← List.append_assoc, ← hsplit]

/-- A parse that fails blames the first token that cannot go on, which is not behind the first end
mark. -/
theorem parseTokens_blames_first_dead_token {file : String} {tokens : List Token} {d : Diagnostic}
    (h : parseTokens file tokens = .error d) :
    ∃ i, (∀ t ∈ (completed file tokens).take i, t.kind ≠ .endOfInput) ∧
      Blames file (completed file tokens) i d := by
  obtain ⟨pre, t, post, q, hsplit, hwalk, hnext, rfl⟩ := parseTokens_stuck h
  obtain ⟨rest, hcompleted⟩ := completed_eq file tokens
  have hcompleted' : completed file tokens = pre ++ t :: (post ++ rest) := by
    rw [hcompleted, ← List.singleton_append, ← List.append_assoc, hsplit]
    simp
  -- The blamed token is at most the end mark, so what stands before it is pending.
  have hlength := congrArg List.length hsplit
  simp only [List.length_append, List.length_cons, List.length_nil] at hlength
  have hpending : pre <+: (Stream.ofTokens file tokens).pending :=
    List.prefix_of_prefix_length_le ⟨t :: post, hsplit.symm⟩ (List.prefix_append _ _) (by omega)
  have hno : ∀ u ∈ pre, u.kind ≠ .endOfInput := fun u hu =>
    (Stream.closed_ofTokens file tokens).pending u (hpending.subset hu)
  refine ⟨pre.length, ?_, ?_⟩
  · rw [hcompleted', List.take_left]
    exact hno
  · rw [hcompleted']
    exact blames_of_walk _ hno hwalk hnext

/-- A blank between a minus and its digits is blamed, although blanks may stand nearly
everywhere. -/
theorem blank_after_minus_blamed :
    let tokens := [.functionOpen, .identifier, .functionMiddle, .callOpen, .identifier, .minus,
      .blank, .number, .callClose, .functionClose].map Token.ofKind
    let d : Diagnostic := ⟨.unexpected [.number] .blank "", .at "" 0⟩
    parseTokens "a.hsl" tokens = .error d ∧
      ∃ i, (∀ t ∈ (completed "a.hsl" tokens).take i, t.kind ≠ .endOfInput) ∧
        Blames "a.hsl" (completed "a.hsl" tokens) i d := by
  intro tokens d
  have hparse : parseTokens "a.hsl" tokens = .error d := by cbv
  exact ⟨hparse, parseTokens_blames_first_dead_token hparse⟩

end HslTree
