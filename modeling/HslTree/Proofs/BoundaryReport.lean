import HslTree.Proofs.LeftmostFault
import HslTree.Proofs.WordBoundary

/-! What is reported where a phrase runs into a foreign word character. The two boundaries keep
different tokens in front of the fault they share, and the parser may stop at one of these. -/

namespace HslTree

namespace Point

/-- The diagnostic of the first token that a walk cannot pass. -/
def stop? : Point → List Token → Option Diagnostic
  | _, [] => none
  | q, token :: rest =>
    match q.next? token.kind with
    | some p => p.stop? rest
    | none => some ⟨.unexpected q.expected token.kind token.value, token.span.start⟩

variable {q p : Point} {t : Token} {ts : List Token} {d : Diagnostic}

theorem stop?_cons_of_some (h : q.next? t.kind = some p) : q.stop? (t :: ts) = p.stop? ts := by
  simp only [stop?, h]

theorem stop?_cons_of_none (h : q.next? t.kind = none) :
    q.stop? (t :: ts) = some ⟨.unexpected q.expected t.kind t.value, t.span.start⟩ := by
  simp only [stop?, h]

theorem stop?_eq_none_iff : q.stop? ts = none ↔ (q.walk ts).isSome = true := by
  induction ts generalizing q with
  | nil => simp [stop?]
  | cons t ts ih =>
    cases hnext : q.next? t.kind with
    | none => simp [stop?_cons_of_none hnext, walk, hnext]
    | some p =>
      rw [stop?_cons_of_some hnext, ih]
      simp [walk, hnext]

theorem stop?_append_of_some (h : q.stop? ts = some d) (us : List Token) :
    q.stop? (ts ++ us) = some d := by
  induction ts generalizing q with
  | nil => cases h
  | cons t ts ih =>
    cases hnext : q.next? t.kind with
    | none => rwa [List.cons_append, stop?_cons_of_none hnext, ← stop?_cons_of_none hnext]
    | some p =>
      rw [List.cons_append, stop?_cons_of_some hnext]
      rw [stop?_cons_of_some hnext] at h
      exact ih h

theorem stop?_append_of_walk (h : q.walk ts = some p) (us : List Token) :
    q.stop? (ts ++ us) = p.stop? us := by
  induction ts generalizing q with
  | nil =>
    cases h
    rfl
  | cons t ts ih =>
    obtain ⟨r, hr, hwalk⟩ := Option.bind_eq_some_iff.mp h
    rw [List.cons_append, stop?_cons_of_some hr]
    exact ih hwalk

theorem exists_of_stop? (h : q.stop? ts = some d) :
    ∃ t ∈ ts, ∃ expected, d.fault = .unexpected expected t.kind t.value := by
  induction ts generalizing q with
  | nil => cases h
  | cons t ts ih =>
    cases hnext : q.next? t.kind with
    | none =>
      rw [stop?_cons_of_none hnext] at h
      cases h
      exact ⟨t, by simp, _, rfl⟩
    | some p =>
      rw [stop?_cons_of_some hnext] at h
      obtain ⟨u, hu, hfault⟩ := ih h
      exact ⟨u, by simp [hu], hfault⟩

end Point

theorem viable_iff_stop? {file : String} {tokens : List Token} :
    Viable file tokens ↔ Point.top.stop? tokens = none := by
  rw [viable_iff, Point.stop?_eq_none_iff]

/-- Where tokens start in front of a fault, the first of them that cannot go on is reported, and
else the fault. -/
theorem Lexicon.readTree_of_fault {lexicon : Lexicon} {source : String} {label? : Option String}
    {x : Diagnostic} {tokens : List Token}
    (htokens : (lexicon.readAt (label?.getD defaultLabel) 0 source.toList).tokens = tokens)
    (hx : (lexicon.readAt (label?.getD defaultLabel) 0 source.toList).diagnostic? = some x)
    (hmarks : ∀ t ∈ tokens, t.kind ≠ .endOfInput)
    (hstarts : ∀ t ∈ tokens, t.span.start.offset < x.position.offset) :
    lexicon.readTree source label? = .error ((Point.top.stop? tokens).getD x) := by
  subst htokens
  cases hparse : parseTokens (label?.getD defaultLabel)
      ((lexicon.readAt (label?.getD defaultLabel) 0 source.toList).tokens ++
        [.endAt x.position]) with
  | ok tree =>
    have hviable : Viable (label?.getD defaultLabel)
        (lexicon.readAt (label?.getD defaultLabel) 0 source.toList).tokens :=
      ⟨_, List.prefix_append _ _, tree, hparse⟩
    rw [readTree_of_parse_ok hx hparse, viable_iff_stop?.mp hviable, Option.getD_none]
  | error d =>
    rw [readTree_of_parse_error hx hparse]
    obtain ⟨pre, t, q, hwalk, hnext, rfl, ⟨rfl, rfl⟩ | ⟨post, hsplit⟩⟩ :=
      blamed_of_error hmarks rfl hparse
    · have hstop : Point.top.stop?
          (lexicon.readAt (label?.getD defaultLabel) 0 source.toList).tokens = none :=
        Point.stop?_eq_none_iff.mpr (by rw [hwalk]; rfl)
      have hnot : ¬ (Token.endAt x.position).span.start.offset < x.position.offset :=
        UInt32.lt_irrefl _
      rw [hstop, if_neg hnot, Option.getD_none]
    · have hlt := hstarts t (by simp [hsplit])
      rw [hsplit, Point.stop?_append_of_walk hwalk, Point.stop?_cons_of_none hnext, if_pos hlt,
        Option.getD_some]

namespace RunsInto

variable {text : List Char} {ls : List Lexeme} {p : Phrase} {c : Char} {rest : List Char}

theorem ascii_lexemes (h : RunsInto text ls p c rest) :
    (Lexicon.ascii.read text).lexemes = ls ++ [⟨p.kind, p.words.toList⟩] := by
  have hne := Phrase.words_ne_nil p h.phrase
  have hends : p.endsBefore isAsciiWordChar (c :: rest) = true :=
    Phrase.endsBefore_iff.mpr fun _ d hd => by
      obtain rfl : c = d := by simpa using hd
      exact (isForeignWordChar_iff.mp h.foreign).2
  have hphrase : Pattern.read? .ascii (.phrase p) (p.words.toList ++ c :: rest) =
      some (.single p.kind p.words.toList (c :: rest)) := by
    have hstart : p.words.toList.isPrefixOf (p.words.toList ++ c :: rest) = true :=
      List.isPrefixOf_iff_prefix.mpr (List.prefix_append _ _)
    simp only [Pattern.read?, readPhrase?, hstart, List.drop_left]
    exact if_pos ⟨hne, trivial, hends⟩
  have horderly : Lexicon.ascii.Orderly := by
    have hstandard := Lexicon.withScanner_orderly longestRun
    exact ⟨hstandard.phrases, hstandard.order⟩
  have hmem : .phrase p ∈ Lexicon.ascii.patterns := by
    simp [Lexicon.ascii, Lexicon.standard, Lexicon.withScanner, h.phrase]
  have hnext := horderly.readNext?_of_read? hmem hphrase (by simp)
  have hnone : Lexicon.ascii.readNext? (c :: rest) = none :=
    Lexicon.readNext?_of_foreign Lexicon.ascii_patterns h.foreign rest
  rw [h.ascii, Lexicon.read_of_next (by simp) hnext rfl, Reading.single,
    Lexicon.read_of_none (by simp) hnone]
  simp [Reading.after, Reading.failed]

theorem standard_lexemes (h : RunsInto text ls p c rest) :
    ∃ ws, (Lexicon.standard.read text).lexemes = ls ++ ws ∧
      ∀ l ∈ ws, l.kind = .identifier ∨ l.kind = .blank := by
  obtain ⟨_, _, hkinds⟩ := Lexicon.read_in_front rfl h.words h.foreign rest
  refine ⟨_, by rw [h.standard]; rfl, fun l hl => ?_⟩
  rcases hkinds l hl with hkind | hkind | ⟨q, hq, _, v, hv, hfound⟩
  · exact .inl hkind
  · exact .inr hkind
  · -- A phrase inside the phrase is the phrase itself, which the wide boundary refuses.
    obtain ⟨_, after, hafter, hends⟩ := readPhrase?_isSome_iff.mp hfound
    have hstart : q.words.toList <+: v := by
      refine prefix_of_prefix_append ⟨after, hafter.symm⟩ fun d hd => ?_
      obtain rfl : c = d := by simpa using hd
      exact Phrase.not_mem_words hq h.foreign
    obtain rfl := Phrase.eq_of_infix p h.phrase h.letter q hq (hstart.isInfix.trans hv.isInfix)
    obtain rfl := hv.eq_of_length_le hstart.length_le
    obtain rfl := List.append_cancel_left hafter
    have hword : isWordChar c = false := Phrase.endsBefore_iff.mp hends h.letter c rfl
    rw [(isForeignWordChar_iff.mp h.foreign).1] at hword
    cases hword

variable {lexicon : Lexicon} {source : String} {label? : Option String}

def fault (file : String) (ls : List Lexeme) (p : Phrase) (c : Char) (rest : List Char) :
    Diagnostic :=
  ⟨Lexicon.standard.unrecognised (c :: rest), .at file (byteLength (textOf ls ++ p.words.toList))⟩

theorem readTree (h : RunsInto source.toList ls p c rest)
    (hread : lexicon.read source.toList = (lexicon.read (p.words.toList ++ c :: rest)).after ls)
    (hpatterns : lexicon.patterns = Lexicon.standard.patterns)
    (hsize : byteLength source.toList < 2 ^ 32) :
    lexicon.readTree source label? = .error ((Point.top.stop?
      (placeAll (label?.getD defaultLabel) 0 (lexicon.read source.toList).lexemes)).getD
        (fault (label?.getD defaultLabel) ls p c rest)) := by
  have hrun := h.readAt hread hpatterns (label?.getD defaultLabel)
  have hcovers := Lexicon.read_covers (Lexicon.kinds_of_patterns hpatterns) source.toList
  refine Lexicon.readTree_of_fault (by rw [hrun]) (by rw [hrun]; rfl) (fun t ht => ?_)
    fun t ht => ?_
  · obtain ⟨l, hl, hkind⟩ := kind_of_mem_placeAll ht
    rw [hkind]
    exact hcovers.marks l hl
  · obtain ⟨n, hn, hlt⟩ := start_of_mem_placeAll hcovers.solid ht
    have hlength := congrArg byteLength h.split
    rw [h.textOf_lexemes hread hpatterns] at hlt
    simp only [byteLength_append] at hlength hlt
    rw [hn, fault, UInt32.lt_iff_toNat_lt, byteLength_append,
      Position.toNat_at _ (by omega), Position.toNat_at _ (by omega)]
    omega

theorem stop?_ne_fault {q : Point} {ts : List Token} {d : Diagnostic} (h : q.stop? ts = some d)
    (file : String) : d ≠ fault file ls p c rest := by
  rintro rfl
  obtain ⟨_, _, _, hfault⟩ := Point.exists_of_stop? h
  cases hfault

theorem stop?_ne {file : String} {a : Nat} (hp : p ∈ Phrase.all) {ws : List Lexeme}
    (hws : ∀ l ∈ ws, l.kind = .identifier ∨ l.kind = .blank) {q : Point} {d e : Diagnostic}
    (hd : q.stop? (placeAll file a ws) = some d)
    (he : q.stop? (placeAll file a [⟨p.kind, p.words.toList⟩]) = some e) : d ≠ e := by
  rintro rfl
  obtain ⟨t, ht, _, hfault⟩ := Point.exists_of_stop? hd
  obtain ⟨u, hu, _, hfault'⟩ := Point.exists_of_stop? he
  obtain ⟨l, hl, hkind⟩ := kind_of_mem_placeAll ht
  obtain ⟨m, hm, hkind'⟩ := kind_of_mem_placeAll hu
  rw [List.mem_singleton.mp hm] at hkind'
  rw [hfault] at hfault'
  obtain ⟨_, hsame, _⟩ := Fault.unexpected.inj hfault'
  rw [hkind, hkind'] at hsame
  have hkinds : ∀ p ∈ Phrase.all, p.kind ≠ .identifier ∧ p.kind ≠ .blank := by decide
  rcases hws l hl with hword | hblank
  · exact (hkinds p hp).1 (hsame.symm.trans hword)
  · exact (hkinds p hp).2 (hsame.symm.trans hblank)

theorem readTree_eq_iff (h : RunsInto source.toList ls p c rest)
    (hsize : byteLength source.toList < 2 ^ 32) :
    Lexicon.standard.readTree source label? = Lexicon.ascii.readTree source label? ↔
      (Viable (label?.getD defaultLabel) (placeAll (label?.getD defaultLabel) 0 ls) →
        Viable (label?.getD defaultLabel)
          (Lexicon.standard.readAt (label?.getD defaultLabel) 0 source.toList).tokens ∧
        Viable (label?.getD defaultLabel)
          (Lexicon.ascii.readAt (label?.getD defaultLabel) 0 source.toList).tokens) := by
  obtain ⟨ws, hstandard, hws⟩ := h.standard_lexemes
  rw [h.readTree h.standard rfl hsize, h.readTree h.ascii Lexicon.ascii_patterns hsize,
    h.readAt h.standard rfl, h.readAt h.ascii Lexicon.ascii_patterns, hstandard, h.ascii_lexemes,
    placeAll_append, placeAll_append, viable_iff_stop?, viable_iff_stop?, viable_iff_stop?,
    Except.error.injEq]
  cases hstop : Point.top.stop? (placeAll (label?.getD defaultLabel) 0 ls) with
  | some d => simp [Point.stop?_append_of_some hstop]
  | none =>
    obtain ⟨q, hq⟩ := Option.isSome_iff_exists.mp (Point.stop?_eq_none_iff.mp hstop)
    rw [Point.stop?_append_of_walk hq, Point.stop?_append_of_walk hq]
    cases hd : q.stop? (placeAll _ (0 + byteLength (textOf ls)) ws) with
    | none =>
      cases he : q.stop? (placeAll _ (0 + byteLength (textOf ls)) [⟨p.kind, p.words.toList⟩]) with
      | none => simp
      | some e => simpa using (stop?_ne_fault he _).symm
    | some d =>
      cases he : q.stop? (placeAll _ (0 + byteLength (textOf ls)) [⟨p.kind, p.words.toList⟩]) with
      | none => simpa using stop?_ne_fault hd _
      | some e => simpa using stop?_ne h.phrase hws hd he

end RunsInto

/-- Both boundaries accept the same sources, with the same trees. They report the same of a
rejected source, unless tokens that could go on come to a phrase that runs into a foreign word
character, and either the phrase or its single words could not go on. -/
theorem readTree_at_ascii_boundary {source : String} {label? : Option String}
    (hsize : byteLength source.toList < 2 ^ 32) :
    (∀ tree, Lexicon.standard.readTree source label? = .ok tree ↔
      Lexicon.ascii.readTree source label? = .ok tree) ∧
    (Lexicon.standard.readTree source label? = Lexicon.ascii.readTree source label? ↔
      ∀ ls p c rest, RunsInto source.toList ls p c rest →
        Viable (label?.getD defaultLabel) (placeAll (label?.getD defaultLabel) 0 ls) →
        Viable (label?.getD defaultLabel)
          (Lexicon.standard.readAt (label?.getD defaultLabel) 0 source.toList).tokens ∧
        Viable (label?.getD defaultLabel)
          (Lexicon.ascii.readAt (label?.getD defaultLabel) 0 source.toList).tokens) := by
  rcases Lexicon.read_ascii source.toList with hsame | ⟨ls, p, c, rest, h⟩
  · have htree :
        Lexicon.standard.readTree source label? = Lexicon.ascii.readTree source label? := by
      rw [Lexicon.readTree, Lexicon.readTree, Lexicon.readAt, Lexicon.readAt, hsame]
    refine ⟨fun tree => by rw [htree], fun _ ls p c rest h => ?_, fun _ => htree⟩
    exact (h.readTree_eq_iff hsize).mp htree
  · constructor
    · intro tree
      rw [h.readTree h.standard rfl hsize, h.readTree h.ascii Lexicon.ascii_patterns hsize]
      simp
    · refine ⟨fun htree ls p c rest h => (h.readTree_eq_iff hsize).mp htree, fun hboth => ?_⟩
      exact (h.readTree_eq_iff hsize).mpr (hboth ls p c rest h)

/-- Behind the name of an extern block both the end of the block and one more name could stand. -/
theorem closing_phrase_same_at_boundary :
    let source := "Hypersignal f Jamsignalé"
    byteLength source.toList < 2 ^ 32 ∧
      Lexicon.standard.readTree source none = Lexicon.ascii.readTree source none := by
  intro source
  have hsize : byteLength source.toList < 2 ^ 32 := by decide +kernel
  refine ⟨hsize, (readTree_at_ascii_boundary hsize).2.mpr fun _ _ _ _ _ _ => ?_⟩
  rw [viable_iff, viable_iff]
  decide +kernel

/-- At the top of a file the phrase could go on, and a name could not. -/
theorem opening_phrase_differs_at_boundary :
    Lexicon.standard.readTree "Hypersignalé" none =
        .error ⟨.unexpected [.endOfInput, .externOpen, .functionOpen] .identifier "Hypersignal",
          .at defaultLabel 0⟩ ∧
      Lexicon.ascii.readTree "Hypersignalé" none =
        .error ⟨.unrecognised "é" (Lexicon.standard.patterns.map Pattern.kind),
          .at defaultLabel 11⟩ := by
  decide +kernel

end HslTree
