import HslTree.Proofs.ParseSpec

/-! Beginnings of accepted token lists. They are the lists that can be walked from the top, so a
diagnostic of the parser names the first token behind which no accepted list goes on. -/

namespace HslTree

def Accepted (file : String) (tokens : List Token) : Prop :=
  ∃ tree, parseTokens file tokens = .ok tree

theorem exists_of_isOk {ε α : Type} {x : Except ε α} (h : x.isOk = true) : ∃ a, x = .ok a := by
  cases x with
  | error e => cases h
  | ok a => exact ⟨a, rfl⟩

/-- Some accepted list starts with these tokens. -/
def Viable (file : String) (tokens : List Token) : Prop :=
  ∃ longer, tokens <+: longer ∧ Accepted file longer

def body (tokens : List Token) : List Token := tokens.takeWhile (·.kind ≠ .endOfInput)

theorem body_of_no_end {tokens : List Token} (h : ∀ t ∈ tokens, t.kind ≠ .endOfInput) :
    body tokens = tokens := List.takeWhile_eq_self_iff.mpr (by simpa using h)

theorem body_append_end {pre : List Token} (hpre : ∀ t ∈ pre, t.kind ≠ .endOfInput) {t : Token}
    (ht : t.kind = .endOfInput) (rest : List Token) : body (pre ++ t :: rest) = pre := by
  rw [body, List.takeWhile_append_of_pos fun t ht => decide_eq_true (hpre t ht),
    List.takeWhile_cons_of_neg (by simp [ht]), List.append_nil]

theorem body_cases (tokens : List Token) :
    body tokens = tokens ∨
      ∃ mark rest, tokens = body tokens ++ mark :: rest ∧ mark.kind = .endOfInput := by
  induction tokens with
  | nil => exact .inl rfl
  | cons t ts ih =>
    by_cases ht : t.kind = .endOfInput
    · exact .inr ⟨t, ts, by simp [body, ht], ht⟩
    · have hbody : body (t :: ts) = t :: body ts := List.takeWhile_cons_of_pos (by simp [ht])
      rcases ih with h | ⟨mark, rest, h, hmark⟩
      · exact .inl (by rw [hbody, h])
      · exact .inr ⟨mark, rest, by rw [hbody, List.cons_append, ← h], hmark⟩

theorem no_end_of_mem_body {tokens : List Token} {t : Token} (h : t ∈ body tokens) :
    t.kind ≠ .endOfInput := by
  simpa using List.mem_takeWhile_imp h

theorem endMark_of_end {file : String} {pre : List Token}
    (hpre : ∀ t ∈ pre, t.kind ≠ .endOfInput) {mark : Token} (hmark : mark.kind = .endOfInput)
    (rest : List Token) : Stream.endMark file (pre ++ mark :: rest) = mark := by
  have hnone : pre.find? (·.kind = .endOfInput) = none := by
    rw [List.find?_eq_none]
    simpa using hpre
  simp [Stream.endMark, List.find?_append, hnone, hmark]

namespace Point

theorem next?_ne_closed {q p : Point} {k : Kind} (hq : q ≠ closed) (hk : k ≠ .endOfInput)
    (h : q.next? k = some p) : p ≠ closed := by
  rintro rfl
  cases q <;> cases k <;> simp_all [next?, isTight]
  all_goals
    rename_i slot
    cases slot <;> simp_all [Slot.after]

theorem walk_ne_closed {q p : Point} (hq : q ≠ closed) {ts : List Token}
    (hts : ∀ t ∈ ts, t.kind ≠ .endOfInput) (h : q.walk ts = some p) : p ≠ closed := by
  induction ts generalizing q with
  | nil =>
    cases h
    exact hq
  | cons t ts ih =>
    obtain ⟨r, hr, hwalk⟩ := Option.bind_eq_some_iff.mp h
    exact ih (next?_ne_closed hq (hts t (by simp)) hr) (fun u hu => hts u (by simp [hu])) hwalk

/-- A walk gets past an end mark only at the top. -/
theorem walk_isSome_of_end {q : Point} {pre rest : List Token} {mark : Token} (hq : q ≠ closed)
    (hpre : ∀ t ∈ pre, t.kind ≠ .endOfInput) (hmark : mark.kind = .endOfInput) :
    (q.walk (pre ++ mark :: rest)).isSome ↔ q.walk pre = some top := by
  rw [walk_append]
  cases hwalk : q.walk pre with
  | none => simp
  | some p =>
    have hp := walk_ne_closed hq hpre hwalk
    simp only [Option.bind_some, walk, hmark, Option.some.injEq]
    constructor
    · intro hsome
      cases hnext : p.next? .endOfInput with
      | none => simp [hnext] at hsome
      | some r =>
        rcases next?_endOfInput hnext with h | h
        · exact h.1
        · exact absurd h.1 hp
    · rintro rfl
      simp [next?]

end Point

section

variable {file : String} {tokens : List Token}

theorem not_stuck_of_walk {s : Stream} {d : Diagnostic} (hs : s.Closed)
    (h : Point.top.walk s.pending = some .top) : ¬ Stuck .top s d := by
  rintro ⟨pre, t, post, p, hsplit, hwalk, hnext, _⟩
  have hall : (Point.top.walk (s.pending ++ [s.last])).isSome := by
    rw [Point.walk_append_of h, Point.walk_singleton, hs.last]
    rfl
  rw [hsplit, Point.walk_append_of hwalk, Point.walk, hnext] at hall
  simp at hall

theorem accepted_iff : Accepted file tokens ↔ Point.top.walk (body tokens) = some .top := by
  constructor
  · rintro ⟨tree, htree⟩
    obtain ⟨_, _, htokens, hwalk⟩ := parseTokens_derivation htree
    rwa [htokens] at hwalk
  · intro hwalk
    cases h : parseTokens file tokens with
    | ok tree => exact ⟨tree, h⟩
    | error d =>
      exact absurd (parseTokens_stuck h)
        (not_stuck_of_walk (Stream.closed_ofTokens file tokens) hwalk)

theorem walk_isSome_of_accepted (h : Accepted file tokens) : (Point.top.walk tokens).isSome := by
  rw [accepted_iff] at h
  rcases body_cases tokens with hbody | ⟨mark, rest, hsplit, hmark⟩
  · rw [hbody] at h
    simp [h]
  · rw [hsplit]
    exact (Point.walk_isSome_of_end (by simp) (fun _ => no_end_of_mem_body) hmark).mpr h

/-- A token of some kind, for where its text does not matter. -/
def Token.ofKind (k : Kind) : Token := ⟨k, "", .empty (.at "" 0)⟩

theorem Point.walk_completion (q : Point) (hq : q ≠ .closed) :
    q.walk (q.completion.map .ofKind) = some .top := by
  cases q with
  | closed => exact absurd rfl hq
  | operand slot | digits slot | string slot => cases slot <;> rfl
  | _ => rfl

theorem Point.completion_ne_end (q : Point) :
    ∀ t ∈ q.completion.map Token.ofKind, t.kind ≠ .endOfInput := by
  cases q with
  | operand slot | digits slot | string slot => cases slot <;> decide
  | _ => decide

theorem viable_iff : Viable file tokens ↔ (Point.top.walk tokens).isSome := by
  constructor
  · rintro ⟨longer, ⟨rest, rfl⟩, haccepted⟩
    have hsome := walk_isSome_of_accepted haccepted
    rw [Point.walk_append] at hsome
    cases h : Point.top.walk tokens with
    | none => simp [h] at hsome
    | some q => rfl
  · intro hsome
    rcases body_cases tokens with hbody | ⟨mark, rest, hsplit, hmark⟩
    · -- Without an end mark the walk is still open, and the tokens can be completed.
      obtain ⟨q, hq⟩ := Option.isSome_iff_exists.mp hsome
      have hno : ∀ t ∈ tokens, t.kind ≠ .endOfInput := fun t ht =>
        no_end_of_mem_body (hbody.symm ▸ ht)
      have hopen := Point.walk_ne_closed (by simp) hno hq
      refine ⟨_, List.prefix_append tokens (q.completion.map .ofKind), accepted_iff.mpr ?_⟩
      rw [body_of_no_end, Point.walk_append_of hq, q.walk_completion hopen]
      intro t ht
      rcases List.mem_append.mp ht with ht | ht
      · exact hno t ht
      · exact q.completion_ne_end t ht
    · refine ⟨tokens, List.prefix_rfl, accepted_iff.mpr ?_⟩
      rw [hsplit] at hsome
      exact (Point.walk_isSome_of_end (by simp) (fun _ => no_end_of_mem_body) hmark).mp hsome

end

end HslTree
