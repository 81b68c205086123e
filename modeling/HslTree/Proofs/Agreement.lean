import HslTree.Proofs.LeftmostFault
import HslTree.Proofs.Modes

/-! Lexemes and grammar agree on what is written without gaps: no source is rejected for the inside
of a string, or for what stands between a minus and its digits. -/

namespace HslTree

namespace Point

def mode : Point → Mode
  | digits _ => .digits
  | string _ => .string
  | _ => .plain

theorem mode_of_next? {q p : Point} {k : Kind} {m : Mode} (hq : q ≠ closed)
    (hnext : q.next? k = some p) (hmode : q.mode.next? k = some m) : p.mode = m := by
  have hall : ∀ k ∈ Kind.all, ∀ p ∈ q.next? k, ∀ m ∈ q.mode.next? k, p.mode = m := by
    cases q with
    | closed => exact absurd rfl hq
    | operand slot | digits slot | string slot => cases slot <;> decide
    | _ => decide
  exact hall k (Kind.mem_all k) p hnext m hmode

/-- Where the lexemes are bound to go on without a gap, the grammar goes on with them. -/
theorem next?_isSome_of_mode {q : Point} {k : Kind} (hq : q.mode ≠ .plain)
    (hmode : (q.mode.next? k).isSome = true) : (q.next? k).isSome = true := by
  have hall : ∀ k ∈ Kind.all, (q.mode.next? k).isSome = true → (q.next? k).isSome = true := by
    cases q with
    | digits slot | string slot => cases slot <;> decide
    | _ => exact absurd rfl hq
  exact hall k (Kind.mem_all k) hmode

theorem isTight_of_mode {q : Point} (hq : q.mode = .plain) : q.isTight = false := by
  cases q <;> first | rfl | cases hq

theorem not_expected_of_mode {q : Point} (hclosed : q ≠ closed) (hq : q.mode = .plain) :
    .content ∉ q.expected ∧ .escape ∉ q.expected := by
  cases q with
  | closed => exact absurd rfl hclosed
  | digits | string => cases hq
  | operand slot => cases slot <;> decide
  | _ => decide

theorem mode_of_walk {file : String} {a : Nat} {ls : List Lexeme} {p q : Point} {m : Mode}
    (hp : p ≠ closed) (hmarks : ∀ l ∈ ls, l.kind ≠ .endOfInput)
    (hwalk : p.walk (placeAll file a ls) = some q) (hmode : p.mode.walk ls = some m) :
    q.mode = m := by
  induction ls generalizing a p with
  | nil =>
    cases hwalk
    exact Option.some.inj hmode
  | cons l ls ih =>
    obtain ⟨p', hnext, hrest⟩ := Option.bind_eq_some_iff.mp hwalk
    obtain ⟨m', hnext', hrest'⟩ := Option.bind_eq_some_iff.mp hmode
    obtain rfl := mode_of_next? hp hnext hnext'
    exact ih (next?_ne_closed hp (hmarks l (by simp)) hnext) (fun k hk => hmarks k (by simp [hk]))
      hrest hrest'

theorem report_of_mode {q : Point} {k : Kind} (hq : q.mode = .plain) (hnext : q.next? k = none)
    (hk : (Mode.next? .plain k).isSome = true) :
    k ∉ [.blank, .comment, .content, .escape] ∧ .content ∉ q.expected ∧ .escape ∉ q.expected := by
  have hclosed : q ≠ closed := by
    rintro rfl
    cases hnext
  have hextra : k.isExtra = false := by
    by_contra hextra
    rw [next?_extra (isTight_of_mode hq) (by simpa using hextra)] at hnext
    cases hnext
  refine ⟨?_, not_expected_of_mode hclosed hq⟩
  rintro hmem
  fin_cases hmem
  · cases hextra
  · cases hextra
  · cases hk
  · cases hk

end Point

section Lexemes

variable {file : String} {ls us vs : List Lexeme} {m : Mode}

theorem Mode.exists_of_walk_append {m' : Mode} (h : m.walk (us ++ vs) = some m') :
    ∃ n, m.walk us = some n ∧ n.walk vs = some m' := by
  rw [walk_append] at h
  exact Option.bind_eq_some_iff.mp h

theorem Mode.eq_digits_of_minus {m' : Mode} (h : m.next? .minus = some m') : m' = .digits := by
  cases m with
  | plain => exact (Option.some.inj h).symm
  | digits | string => cases h

theorem Mode.eq_number_of_digits {k : Kind} {m' : Mode} (h : Mode.next? .digits k = some m') :
    k = .number := by
  cases k <;> first | rfl | cases h

/-- No minus ends where the lexemes so far may be followed by a gap: its digits stand behind it. -/
theorem minus_not_before {t : Token} (hmode : Mode.walk .plain (us ++ vs) = some m)
    (hsolid : ∀ l ∈ us ++ vs, l.kind = .minus ∨ l.kind = .number → l.text ≠ [])
    (hplain : Mode.walk .plain us = some .plain) (hsize : byteLength (textOf (us ++ vs)) < 2 ^ 32)
    (ht : t ∈ placeAll file 0 (us ++ vs))
    (hstop : t.span.stop.offset = (Position.at file (byteLength (textOf us))).offset) :
    t.kind ≠ .minus := by
  intro hminus
  obtain ⟨pre, post, hsplit⟩ := List.append_of_mem ht
  obtain ⟨ps, rest, hls, rfl, hrest⟩ := placeAll_split hsplit.symm
  cases rest with
  | nil => cases hrest
  | cons l qs =>
    obtain ⟨rfl, _⟩ := List.cons.inj hrest
    have hl : l.kind = .minus := hminus
    have hpos := byteLength_pos (hsolid l (by simp [hls]) (.inl hl))
    have hlength : byteLength (textOf ps) + byteLength l.text = byteLength (textOf us) := by
      have hbound := hsize
      rw [hls] at hbound
      simp only [textOf_append, textOf_cons, byteLength_append] at hsize hbound
      have hnat := congrArg UInt32.toNat hstop
      rw [Position.toNat_at file (by omega)] at hnat
      change (Position.at file (0 + byteLength (textOf ps) + byteLength l.text)).offset.toNat = _
        at hnat
      rw [Position.toNat_at file (by omega)] at hnat
      omega
    rcases List.append_eq_append_iff.mp hls with ⟨x, rfl, _⟩ | ⟨x, rfl, hx⟩
    · simp only [textOf_append, byteLength_append] at hlength
      omega
    · cases x with
      | nil =>
        rw [List.append_nil] at hlength
        omega
      | cons y x =>
        obtain ⟨rfl, _⟩ := List.cons.inj hx
        obtain ⟨n, _, hrest⟩ := Mode.exists_of_walk_append hplain
        obtain ⟨n', hn', hx'⟩ := Option.bind_eq_some_iff.mp hrest
        obtain rfl := Mode.eq_digits_of_minus (hl ▸ hn')
        cases x with
        | nil => cases hx'
        | cons z x =>
          obtain ⟨_, hz, _⟩ := Option.bind_eq_some_iff.mp hx'
          have hpos' := byteLength_pos (hsolid z (by simp) (.inr (Mode.eq_number_of_digits hz)))
          simp only [textOf_append, textOf_cons, byteLength_append] at hlength
          omega

/-- The grammar goes along with some lexemes to a point that does not allow the token behind
them. -/
structure StopsAt (file : String) (us : List Lexeme) (q : Point) (t : Token) (d : Diagnostic) :
    Prop where
  walk : Point.top.walk (placeAll file 0 us) = some q
  next : q.next? t.kind = none
  report : d = ⟨.unexpected q.expected t.kind t.value, t.span.start⟩

theorem exists_stop {mark : Token} {d : Diagnostic} (hmarks : ∀ l ∈ ls, l.kind ≠ .endOfInput)
    (hmark : mark.kind = .endOfInput)
    (h : parseTokens file (placeAll file 0 ls ++ [mark]) = .error d) :
    ∃ us q t, StopsAt file us q t d ∧
      (ls = us ∧ t = mark ∨
        ∃ l rest, ls = us ++ l :: rest ∧ t = l.place file (byteLength (textOf us))) := by
  have htokens : ∀ t ∈ placeAll file 0 ls, t.kind ≠ .endOfInput := by
    intro t ht
    obtain ⟨l, hl, hkind⟩ := kind_of_mem_placeAll ht
    rw [hkind]
    exact hmarks l hl
  obtain ⟨pre, t, q, hwalk, hnext, hd, ⟨rfl, rfl⟩ | ⟨post, hpost⟩⟩ :=
    blamed_of_error htokens hmark h
  · exact ⟨ls, q, t, ⟨hwalk, hnext, hd⟩, .inl ⟨rfl, rfl⟩⟩
  · obtain ⟨us, vs, rfl, rfl, hvs⟩ := placeAll_split hpost.symm
    cases vs with
    | nil => cases hvs
    | cons l rest =>
      obtain ⟨rfl, _⟩ := List.cons.inj hvs
      rw [Nat.zero_add] at *
      exact ⟨us, q, _, ⟨hwalk, hnext, hd⟩, .inr ⟨l, rest, rfl, rfl⟩⟩

section Stops

variable {q : Point} {t : Token} {d : Diagnostic} (h : StopsAt file us q t d)
  (hmarks : ∀ l ∈ us, l.kind ≠ .endOfInput)

include h hmarks

theorem StopsAt.mode_eq (hmode : Mode.walk .plain us = some m) : q.mode = m :=
  Point.mode_of_walk (by simp) hmarks h.walk hmode

theorem StopsAt.plain_at_lexeme {l : Lexeme} (hl : t.kind = l.kind)
    (hmode : Mode.walk .plain (us ++ l :: vs) = some m) :
    Mode.walk .plain us = some .plain ∧ (Mode.next? .plain t.kind).isSome = true := by
  obtain ⟨n, hus, hrest⟩ := Mode.exists_of_walk_append hmode
  obtain ⟨n', hn', _⟩ := Option.bind_eq_some_iff.mp hrest
  obtain rfl := h.mode_eq hmarks hus
  have hsome : (q.mode.next? t.kind).isSome = true := by
    rw [hl, hn']
    rfl
  have hplain : q.mode = .plain := by
    by_contra hq
    have hgoes := Point.next?_isSome_of_mode hq hsome
    rw [h.next] at hgoes
    cases hgoes
  rw [hplain] at hus hsome
  exact ⟨hus, hsome⟩

end Stops

end Lexemes

theorem Lexicon.mem_readAt {text : List Char} {file : String} {t : Token}
    (h : t ∈ (standard.readAt file 0 text).tokens) :
    t ∈ placeAll file 0 (standard.read text).lexemes ∨ t.kind = .endOfInput := by
  cases hfault : (standard.read text).fault? with
  | none =>
    rw [readAt_of_none _ _ hfault] at h
    rcases List.mem_append.mp h with h | h
    · exact .inl h
    · rw [List.mem_singleton.mp h]
      exact .inr rfl
  | some x =>
    rw [readAt_of_some _ _ hfault] at h
    exact .inl h

theorem Mode.Awaits.eq_plain {m : Mode} (h : m.Awaits []) : m = .plain := by
  cases m with
  | plain => rfl
  | digits =>
    obtain ⟨_, _, hnil, _⟩ := h
    cases hnil
  | string => exact h.elim

theorem Lexicon.walk_of_no_fault {text : List Char} (h : (standard.read text).fault? = none) :
    Mode.walk .plain (standard.read text).lexemes = some .plain := by
  have hshaped : (standard.read text).Shaped .plain := read_shaped trivial
  obtain ⟨m, hmode, hawaits⟩ := hshaped.walks
  have hend := hawaits h
  rw [read_rest h] at hend
  rw [hmode, hend.eq_plain]

section Sources

variable {source : String} {label? : Option String} {d : Diagnostic}

/-- Where a fault stopped the reading of lexemes, the end of these is at the fault and is not
reported in its place. -/
theorem exists_reported_stop (h : Lexicon.standard.readTree source label? = .error d)
    (hstage : d.fault.stage = .parsing) :
    ∃ us q t, StopsAt (label?.getD defaultLabel) us q t d ∧
      ((Lexicon.standard.read source.toList).fault? = none ∧
          (Lexicon.standard.read source.toList).lexemes = us ∧
          t = .endAt (.at (label?.getD defaultLabel) (byteLength (textOf us))) ∨
        ∃ l rest, (Lexicon.standard.read source.toList).lexemes = us ++ l :: rest ∧
          t = l.place (label?.getD defaultLabel) (byteLength (textOf us))) := by
  have hmarks := (Lexicon.read_covers Lexicon.standard_kinds source.toList).marks
  cases hfault : (Lexicon.standard.read source.toList).fault? with
  | none =>
    simp only [Lexicon.readTree, Lexicon.readAt_of_none _ _ hfault, Nat.zero_add] at h
    obtain ⟨us, q, t, hstops, ⟨hls, ht⟩ | hl⟩ := exists_stop hmarks rfl h
    · rw [hls] at ht
      exact ⟨us, q, t, hstops, .inl ⟨rfl, hls, ht⟩⟩
    · exact ⟨us, q, t, hstops, .inr hl⟩
  | some x =>
    obtain ⟨fault, distance⟩ := x
    obtain ⟨x, hx, hxfault⟩ : ∃ x,
        (Lexicon.standard.readAt (label?.getD defaultLabel) 0 source.toList).diagnostic? = some x ∧
          x.fault = fault := ⟨_, by rw [Lexicon.readAt_of_some _ _ hfault], rfl⟩
    have hshaped : (Lexicon.standard.read source.toList).Shaped .plain :=
      Lexicon.read_shaped trivial
    have hne : d ≠ x := by
      rintro rfl
      rw [hxfault, hshaped.lexing _ hfault] at hstage
      cases hstage
    obtain ⟨_, _, htokens, _⟩ := Lexicon.readAt_fault hx
    cases hparse : parseTokens (label?.getD defaultLabel)
        ((Lexicon.standard.readAt (label?.getD defaultLabel) 0 source.toList).tokens ++
          [.endAt x.position]) with
    | ok tree =>
      rw [Lexicon.readTree_of_parse_ok hx hparse] at h
      exact absurd (Except.error.inj h).symm hne
    | error e =>
      rw [Lexicon.readTree_of_parse_error hx hparse] at h
      by_cases hlt : e.position.offset < x.position.offset
      · rw [if_pos hlt] at h
        obtain rfl := Except.error.inj h
        rw [htokens] at hparse
        obtain ⟨us, q, t, hstops, ⟨_, rfl⟩ | hl⟩ := exists_stop hmarks rfl hparse
        · rw [hstops.report] at hlt
          exact absurd hlt (UInt32.lt_irrefl _)
        · exact ⟨us, q, t, hstops, .inr hl⟩
      · rw [if_neg hlt] at h
        exact absurd (Except.error.inj h).symm hne

end Sources

/-- What a source is rejected for as unexpected stands where a gap may stand as well, and is no part
of a string or a number. Only a source that is read to its end is rejected for its end. -/
theorem readTree_blames_no_gap {source : String} {label? : Option String} {expected : List Kind}
    {found : Kind} {text : String} {position : Position} (hsize : byteLength source.toList < 2 ^ 32)
    (h : Lexicon.standard.readTree source label? =
      .error ⟨.unexpected expected found text, position⟩) :
    found ∉ [.blank, .comment, .content, .escape] ∧ .content ∉ expected ∧ .escape ∉ expected ∧
      (∀ t ∈ (Lexicon.standard.readAt (label?.getD defaultLabel) 0 source.toList).tokens,
        t.span.stop.offset = position.offset → t.kind ≠ .minus) ∧
      (found = .endOfInput → (∃ tokens, Lexicon.standard.readTokens source label? = .ok tokens) ∧
        position.offset.toNat = byteLength source.toList) := by
  obtain ⟨us, q, t, hstops, ht⟩ := exists_reported_stop h rfl
  cases hstops.report
  have hcovers := Lexicon.read_covers Lexicon.standard_kinds source.toList
  have hshaped : (Lexicon.standard.read source.toList).Shaped .plain := Lexicon.read_shaped trivial
  obtain ⟨m, hmode, _⟩ := hshaped.walks
  have hstart : t.span.start = .at (label?.getD defaultLabel) (byteLength (textOf us)) := by
    rcases ht with ⟨_, _, rfl⟩ | ⟨l, rest, _, rfl⟩ <;> rfl
  obtain ⟨vs, hls⟩ : ∃ vs, (Lexicon.standard.read source.toList).lexemes = us ++ vs := by
    rcases ht with ⟨_, hls, _⟩ | ⟨l, rest, hls, _⟩
    · exact ⟨[], by rw [hls, List.append_nil]⟩
    · exact ⟨_, hls⟩
  have hmarks : ∀ l ∈ us, l.kind ≠ .endOfInput :=
    fun l hl => hcovers.marks l (by simp [hls, hl])
  obtain ⟨hplain, hk⟩ : Mode.walk .plain us = some .plain ∧
      (Mode.next? .plain t.kind).isSome = true := by
    rcases ht with ⟨hfault, rfl, rfl⟩ | ⟨l, rest, hl, rfl⟩
    · exact ⟨Lexicon.walk_of_no_fault hfault, rfl⟩
    · exact hstops.plain_at_lexeme hmarks rfl (hl ▸ hmode)
  obtain ⟨hfound, hcontent, hescape⟩ :=
    Point.report_of_mode (hstops.mode_eq hmarks hplain) hstops.next hk
  refine ⟨hfound, hcontent, hescape, fun t' ht' hstop => ?_, fun hend => ?_⟩
  · rcases Lexicon.mem_readAt ht' with hplaced | hmark
    · have hlength := congrArg byteLength hcovers.text
      have hsolid := hshaped.solid
      rw [hls] at hplaced hmode hsolid hlength
      rw [byteLength_append] at hlength
      rw [hstart] at hstop
      exact minus_not_before hmode hsolid hplain (by omega) hplaced hstop
    · rw [hmark]
      decide
  · rcases ht with ⟨hfault, rfl, _⟩ | ⟨l, rest, hl, rfl⟩
    · rw [hstart, Lexicon.read_ok hfault, Position.toNat_at _ hsize, Lexicon.readTokens,
        Lexicon.readAt_of_none _ _ hfault]
      exact ⟨⟨_, rfl⟩, rfl⟩
    · exact absurd hend (hcovers.marks l (by simp [hl]))

/-- The second minus is blamed, in front of a number that is none; the first one stands in front of
its digits. -/
theorem second_minus_blamed :
    let source := "A long time ago in a f far, far away... " ++
      "The force is strong with this one. x I am your father. -7-8z"
    let expected : List Kind :=
      [.functionClose, .callOpen, .declareResistance, .declareForce, .declarePilot]
    let position : Position := .at defaultLabel 97
    byteLength source.toList < 2 ^ 32 ∧
      Lexicon.standard.readTree source none = .error ⟨.unexpected expected .minus "-", position⟩ ∧
      Kind.minus ∉ [.blank, .comment, .content, .escape] ∧ .content ∉ expected ∧
      .escape ∉ expected ∧
      (∀ t ∈ (Lexicon.standard.readAt defaultLabel 0 source.toList).tokens,
        t.span.stop.offset = position.offset → t.kind ≠ .minus) ∧
      (Kind.minus = .endOfInput →
        (∃ tokens, Lexicon.standard.readTokens source none = .ok tokens) ∧
          position.offset.toNat = byteLength source.toList) := by
  intro source expected position
  have hsize : byteLength source.toList < 2 ^ 32 := by decide +kernel
  have hreport : Lexicon.standard.readTree source none =
      .error ⟨.unexpected expected .minus "-", position⟩ := by decide +kernel
  exact ⟨hsize, hreport, readTree_blames_no_gap hsize hreport⟩

end HslTree
