import HslTree.Proofs.Lossless
import HslTree.Proofs.SyntaxFault

/-! The leftmost fault. When a fault stops the reading of tokens, a source is reported for that
fault just if the tokens in front of it could go on; offsets alone decide this, since every token
starts in front of the fault. -/

namespace HslTree

theorem byteLength_pos {cs : List Char} (h : cs ≠ []) : 0 < byteLength cs := by
  cases cs with
  | nil => exact absurd rfl h
  | cons c cs =>
    have hc := c.utf8Size_pos
    simp only [byteLength]
    omega

theorem byteLength_textOf_pos {ls : List Lexeme} (hne : ls ≠ [])
    (hsolid : ∀ l ∈ ls.getLast?, l.text ≠ []) : 0 < byteLength (textOf ls) := by
  have hlast := List.getLast?_eq_some_getLast hne
  obtain ⟨pre, hpre⟩ := List.getLast?_eq_some_iff.mp hlast
  have hpos := byteLength_pos (hsolid _ hlast)
  rw [hpre, textOf_append, byteLength_append, textOf_cons, textOf_nil, List.append_nil]
  omega

/-- Empty lexemes are followed by others, so each lexeme starts in front of the end. -/
theorem start_of_mem_placeAll {file : String} {a : Nat} {ls : List Lexeme} {t : Token}
    (hsolid : ∀ l ∈ ls.getLast?, l.text ≠ []) (ht : t ∈ placeAll file a ls) :
    ∃ n, t.span.start = .at file n ∧ n < a + byteLength (textOf ls) := by
  induction ls generalizing a with
  | nil => cases ht
  | cons l ls ih =>
    rcases List.mem_cons.mp ht with rfl | ht
    · have hpos := byteLength_textOf_pos (List.cons_ne_nil l ls) hsolid
      exact ⟨a, rfl, by omega⟩
    · have hne : ls ≠ [] := by
        rintro rfl
        cases ht
      have hsolid' : ∀ m ∈ ls.getLast?, m.text ≠ [] := by
        intro m hm
        refine hsolid m ?_
        rw [List.getLast?_cons, Option.mem_def.mp hm]
        rfl
      obtain ⟨n, hn, hlt⟩ := ih hsolid' ht
      refine ⟨n, hn, ?_⟩
      rw [textOf_cons, byteLength_append]
      omega

section Closed

variable {file : String} {tokens : List Token} {mark : Token}

theorem ofTokens_append_end (htokens : ∀ t ∈ tokens, t.kind ≠ .endOfInput)
    (hmark : mark.kind = .endOfInput) :
    Stream.ofTokens file (tokens ++ [mark]) = ⟨tokens, mark⟩ := by
  have hpending : (tokens ++ [mark]).takeWhile (·.kind ≠ .endOfInput) = tokens :=
    body_append_end htokens hmark []
  rw [Stream.ofTokens, hpending, endMark_of_end htokens hmark]

/-- A failed parse stops at one of the tokens or at the mark behind them. -/
theorem blamed_of_error (htokens : ∀ t ∈ tokens, t.kind ≠ .endOfInput)
    (hmark : mark.kind = .endOfInput) {d : Diagnostic}
    (h : parseTokens file (tokens ++ [mark]) = .error d) :
    ∃ pre t q, Point.top.walk pre = some q ∧ q.next? t.kind = none ∧
      d = ⟨.unexpected q.expected t.kind t.value, t.span.start⟩ ∧
      (pre = tokens ∧ t = mark ∨ ∃ post, tokens = pre ++ t :: post) := by
  obtain ⟨pre, t, post, q, hsplit, hwalk, hnext, hd⟩ := parseTokens_stuck h
  rw [ofTokens_append_end htokens hmark] at hsplit
  refine ⟨pre, t, q, hwalk, hnext, hd, ?_⟩
  rcases List.eq_nil_or_concat post with rfl | ⟨post, last, rfl⟩
  · obtain ⟨hpre, hlast⟩ := List.append_inj' hsplit rfl
    exact .inl ⟨hpre.symm, (List.singleton_inj.mp hlast).symm⟩
  · have hcut : tokens ++ [mark] = (pre ++ t :: post) ++ [last] := by simpa using hsplit
    exact .inr ⟨post, (List.append_inj' hcut rfl).1⟩

theorem parseTokens_of_viable (htokens : ∀ t ∈ tokens, t.kind ≠ .endOfInput)
    (hmark : mark.kind = .endOfInput) (hviable : Viable file tokens) {d : Diagnostic}
    (h : parseTokens file (tokens ++ [mark]) = .error d) : d.position = mark.span.start := by
  obtain ⟨pre, t, q, hwalk, hnext, rfl, ⟨_, rfl⟩ | ⟨post, rfl⟩⟩ := blamed_of_error htokens hmark h
  · rfl
  · -- A blamed token in front of the mark would end every walk over the tokens.
    rw [viable_iff, Point.walk_append_of hwalk, Point.walk, hnext] at hviable
    cases hviable

theorem parseTokens_of_not_viable (htokens : ∀ t ∈ tokens, t.kind ≠ .endOfInput)
    (hmark : mark.kind = .endOfInput) (hdead : ¬ Viable file tokens) :
    ∃ i d t, parseTokens file (tokens ++ [mark]) = .error d ∧ Blames file tokens i d ∧
      t ∈ tokens ∧ d.position = t.span.start := by
  cases h : parseTokens file (tokens ++ [mark]) with
  | ok tree => exact absurd ⟨_, List.prefix_append tokens [mark], tree, h⟩ hdead
  | error d =>
    obtain ⟨pre, t, q, hwalk, hnext, rfl, ⟨rfl, _⟩ | ⟨post, rfl⟩⟩ :=
      blamed_of_error htokens hmark h
    · refine absurd (viable_iff.mpr ?_) hdead
      rw [hwalk]
      rfl
    · exact ⟨pre.length, _, t, rfl,
        blames_of_walk post (fun u hu => htokens u (by simp [hu])) hwalk hnext, by simp, rfl⟩

end Closed

theorem viable_take {file : String} {tokens : List Token} {i j : Nat} (hij : j ≤ i)
    (h : Viable file (tokens.take i)) : Viable file (tokens.take j) := by
  obtain ⟨longer, hlonger, haccepted⟩ := h
  exact ⟨longer, (List.take_prefix_take_left hij).trans hlonger, haccepted⟩

theorem Session.run?_fault {source file : String} {session : Session} {x : Diagnostic}
    (h : (Session.start .standard source file).run? = some (session, some x)) :
    session.tokens = (Lexicon.standard.readAt file 0 source.toList).tokens ∧
      (Lexicon.standard.readAt file 0 source.toList).diagnostic? = some x := by
  unfold Session.run? at h
  split at h
  · cases h
  · have hunread : (Session.start .standard source file).unread? = some source.toList := by
      simp [Session.unread?, Session.start, splitAtByte?]
    rw [hunread] at h
    simp only [Session.start, Option.map_some, Option.some.injEq, Prod.mk.injEq] at h
    obtain ⟨rfl, hx⟩ := h
    exact ⟨rfl, hx⟩

namespace Lexicon

theorem readAt_fault {file : String} {text : List Char} {x : Diagnostic}
    (h : (standard.readAt file 0 text).diagnostic? = some x) :
    ∃ distance, distance ≤ byteLength (standard.read text).rest ∧
      (standard.readAt file 0 text).tokens = placeAll file 0 (standard.read text).lexemes ∧
      x.position = .at file (byteLength (textOf (standard.read text).lexemes) + distance) := by
  cases hfault : (standard.read text).fault? with
  | none =>
    rw [readAt_of_none _ _ hfault] at h
    cases h
  | some d =>
    obtain ⟨fault, distance⟩ := d
    rw [readAt_of_some _ _ hfault, Nat.zero_add] at h ⊢
    obtain rfl := Option.some.inj h
    exact ⟨distance, (read_covers standard_kinds text).reach _ hfault, rfl, rfl⟩

section

variable {lexicon : Lexicon} {source : String} {label? : Option String} {x : Diagnostic}

theorem readTree_of_parse_ok {tree : Tree}
    (hx : (lexicon.readAt (label?.getD defaultLabel) 0 source.toList).diagnostic? = some x)
    (h : parseTokens (label?.getD defaultLabel)
      ((lexicon.readAt (label?.getD defaultLabel) 0 source.toList).tokens ++
        [.endAt x.position]) = .ok tree) :
    lexicon.readTree source label? = .error x := by
  simp only [readTree, hx, h]

theorem readTree_of_parse_error {d : Diagnostic}
    (hx : (lexicon.readAt (label?.getD defaultLabel) 0 source.toList).diagnostic? = some x)
    (h : parseTokens (label?.getD defaultLabel)
      ((lexicon.readAt (label?.getD defaultLabel) 0 source.toList).tokens ++
        [.endAt x.position]) = .error d) :
    lexicon.readTree source label? =
      .error (if d.position.offset < x.position.offset then d else x) := by
  simp only [readTree, hx, h]
  split <;> rfl

end

end Lexicon

/-- Every token kept starts in front of the fault, as the fault lies inside the source. -/
theorem start_lt_fault {file : String} {text : List Char} {x : Diagnostic}
    (hsize : byteLength text < 2 ^ 32)
    (h : (Lexicon.standard.readAt file 0 text).diagnostic? = some x) {t : Token}
    (ht : t ∈ (Lexicon.standard.readAt file 0 text).tokens) :
    t.span.start.offset < x.position.offset := by
  obtain ⟨distance, hreach, htokens, hposition⟩ := Lexicon.readAt_fault h
  have hcovers := Lexicon.read_covers Lexicon.standard_kinds text
  have hlength := congrArg byteLength hcovers.text
  rw [byteLength_append] at hlength
  rw [htokens] at ht
  obtain ⟨n, hn, hlt⟩ := start_of_mem_placeAll hcovers.solid ht
  rw [hn, hposition, UInt32.lt_iff_toNat_lt, Position.toNat_at file (by omega),
    Position.toNat_at file (by omega)]
  omega

section Report

variable {source : String} {label? : Option String} {x : Diagnostic} {tokens : List Token}

theorem readTree_of_viable
    (htokens : (Lexicon.standard.readAt (label?.getD defaultLabel) 0 source.toList).tokens = tokens)
    (hx : (Lexicon.standard.readAt (label?.getD defaultLabel) 0 source.toList).diagnostic? = some x)
    (hmarks : ∀ t ∈ tokens, t.kind ≠ .endOfInput)
    (h : Viable (label?.getD defaultLabel) tokens) :
    Lexicon.standard.readTree source label? = .error x := by
  subst htokens
  cases hparse : parseTokens (label?.getD defaultLabel)
      ((Lexicon.standard.readAt (label?.getD defaultLabel) 0 source.toList).tokens ++
        [.endAt x.position]) with
  | ok tree => exact Lexicon.readTree_of_parse_ok hx hparse
  | error d =>
    have hposition : d.position = x.position := parseTokens_of_viable hmarks rfl h hparse
    rw [Lexicon.readTree_of_parse_error hx hparse, hposition, if_neg (UInt32.lt_irrefl _)]

theorem readTree_of_not_viable (hsize : byteLength source.toList < 2 ^ 32)
    (htokens : (Lexicon.standard.readAt (label?.getD defaultLabel) 0 source.toList).tokens = tokens)
    (hx : (Lexicon.standard.readAt (label?.getD defaultLabel) 0 source.toList).diagnostic? = some x)
    (hmarks : ∀ t ∈ tokens, t.kind ≠ .endOfInput)
    (h : ¬ Viable (label?.getD defaultLabel) tokens) :
    ∃ i d, Blames (label?.getD defaultLabel) tokens i d ∧ d ≠ x ∧
      Lexicon.standard.readTree source label? = .error d := by
  subst htokens
  have hmark : (Token.endAt x.position).kind = .endOfInput := rfl
  obtain ⟨i, d, t, hparse, hblames, ht, hposition⟩ := parseTokens_of_not_viable hmarks hmark h
  have hlt : d.position.offset < x.position.offset := by
    rw [hposition]
    exact start_lt_fault hsize hx ht
  refine ⟨i, d, hblames, ?_, ?_⟩
  · rintro rfl
    exact absurd hlt (UInt32.lt_irrefl _)
  · rw [Lexicon.readTree_of_parse_error hx hparse, if_pos hlt]

end Report

/-- What is reported of a source whose reading stopped at the fault `x` with some tokens kept: that
fault just if the tokens begin some accepted list, and else the first token that cannot go on. -/
structure ReportsLeftmost (source : String) (label? : Option String) (tokens : List Token)
    (x : Diagnostic) : Prop where
  fails : ∃ d, Lexicon.standard.readTree source label? = .error d
  fault_iff : Lexicon.standard.readTree source label? = .error x ↔
    Viable (label?.getD defaultLabel) tokens
  blames : ¬ Viable (label?.getD defaultLabel) tokens →
    ∃ i d, Blames (label?.getD defaultLabel) tokens i d ∧
      (∀ j ≤ i, Viable (label?.getD defaultLabel) (tokens.take j)) ∧
      Lexicon.standard.readTree source label? = .error d

theorem readTree_reports_leftmost_failure {source : String} {label? : Option String}
    {session : Session} {x : Diagnostic} (hsize : byteLength source.toList < 2 ^ 32)
    (hrun : (Session.start .standard source (label?.getD defaultLabel)).run? =
      some (session, some x)) : ReportsLeftmost source label? session.tokens x := by
  obtain ⟨htokens, hx⟩ := Session.run?_fault hrun
  have hmarks : ∀ t ∈ session.tokens, t.kind ≠ .endOfInput := by
    obtain ⟨_, _, hplaced, _⟩ := Lexicon.readAt_fault hx
    rw [htokens, hplaced]
    exact Lexicon.placeAll_read_marks
  have hviable := readTree_of_viable htokens.symm hx hmarks
  have hdead := readTree_of_not_viable hsize htokens.symm hx hmarks
  refine ⟨?_, ⟨fun hreport => ?_, hviable⟩, fun h => ?_⟩
  · by_cases h : Viable (label?.getD defaultLabel) session.tokens
    · exact ⟨x, hviable h⟩
    · obtain ⟨_, d, _, _, hd⟩ := hdead h
      exact ⟨d, hd⟩
  · by_contra h
    obtain ⟨_, d, _, hne, hd⟩ := hdead h
    rw [hd] at hreport
    exact hne (Except.error.inj hreport)
  · obtain ⟨i, d, hblames, _, hd⟩ := hdead h
    exact ⟨i, d, hblames, fun j hj => viable_take hj hblames.viable, hd⟩

/-- A wrong escape cuts two strings off. The first is reported there; in front of the second the
middle of the function is missing, so that is reported and not the escape. -/
theorem cut_string_reports_leftmost :
    let source := "A long time ago in a f far, far away... Execute order g \"é\\xZ"
    let x : Diagnostic := ⟨.malformedEscape "\\xZ", .at defaultLabel 61⟩
    let broken := "A long time ago in a f Execute order g \"é\\xZ"
    let y : Diagnostic := ⟨.malformedEscape "\\xZ", .at defaultLabel 44⟩
    (byteLength source.toList < 2 ^ 32 ∧
      (∃ session, (Session.start .standard source defaultLabel).run? = some (session, some x) ∧
        ReportsLeftmost source none session.tokens x) ∧
      Lexicon.standard.readTree source none = .error x) ∧
    (byteLength broken.toList < 2 ^ 32 ∧
      (∃ session, (Session.start .standard broken defaultLabel).run? = some (session, some y) ∧
        ReportsLeftmost broken none session.tokens y) ∧
      Lexicon.standard.readTree broken none =
        .error ⟨.unexpected [.functionMiddle] .callOpen "Execute order", .at defaultLabel 23⟩) := by
  intro source x broken y
  have hsize : byteLength source.toList < 2 ^ 32 := by decide +kernel
  have hsize' : byteLength broken.toList < 2 ^ 32 := by decide +kernel
  have hfault : (Session.start .standard source defaultLabel).run?.map (·.2) = some (some x) := by
    decide +kernel
  have hfault' : (Session.start .standard broken defaultLabel).run?.map (·.2) = some (some y) := by
    decide +kernel
  obtain ⟨⟨session, _⟩, hrun, rfl⟩ := Option.map_eq_some_iff.mp hfault
  obtain ⟨⟨session', _⟩, hrun', rfl⟩ := Option.map_eq_some_iff.mp hfault'
  exact ⟨⟨hsize, ⟨session, hrun, readTree_reports_leftmost_failure hsize hrun⟩, by decide +kernel⟩,
    hsize', ⟨session', hrun', readTree_reports_leftmost_failure hsize' hrun'⟩, by decide +kernel⟩

end HslTree
