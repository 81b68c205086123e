import HslTree.Proofs.ByteSlices
import HslTree.Proofs.LeftmostFault

/-! Reading by byte offsets. A session is read here by a cursor that counts bytes, with every text
it looks at cut out of the source; where a cut is missing there is no result. Each round through a
string moves the cursor on, so the loop through it ends, and it has a result. -/

namespace HslTree

section PlainRuns

variable {text run rest : List Char} {length : Nat}

/-- Whether a text starts with a plain run of so many bytes. The run is cut out only if it ends
between characters. -/
def startsWithRun? (text : List Char) (length : Nat) : Option Bool :=
  if 0 < length ∧ length ≤ byteLength text ∧ isBoundary text length then
    (slice? text 0 length).map (·.all isPlain)
  else some false

theorem pos_of_startsWithRun? (h : startsWithRun? text length = some true) : 0 < length := by
  unfold startsWithRun? at h
  split at h
  · rename_i hrun
    exact hrun.1
  · cases h

theorem startsWithRun?_eq (text : List Char) (length : Nat) :
    startsWithRun? text length = some (plainRun? length text).isSome := by
  unfold startsWithRun? plainRun? isBoundary
  cases hsplit : splitAtByte? length text with
  | none => simp
  | some parts =>
    obtain ⟨run, rest⟩ := parts
    obtain ⟨happend, hlength⟩ := append_of_splitAtByte? hsplit
    have hslice : slice? text 0 length = some run := by
      rw [← happend, ← hlength]
      exact slice?_zero_append run rest
    have hle : length ≤ byteLength text := hlength ▸ byteLength_le_of_prefix ⟨rest, happend⟩
    by_cases hrun : run = []
    · have hzero : ¬ 0 < length := by
        rw [← hlength, hrun]
        exact Nat.lt_irrefl 0
      simp [hzero, hrun]
    · have hpos : 0 < length := hlength ▸ byteLength_pos hrun
      rw [if_pos ⟨hpos, hle, rfl⟩, hslice]
      by_cases hplain : run.all isPlain = true <;> simp [hrun, hplain]

theorem splitAtByte?_of_plainRun? (h : plainRun? length text = some (run, rest)) :
    splitAtByte? length text = some (run, rest) := by
  unfold plainRun? at h
  split at h
  · rename_i hsplit
    split at h
    · cases h
      exact hsplit
    · cases h
  · cases h

end PlainRuns

/-- What one round of the loop through a string leads to. -/
inductive StringRound
  | again (session : Session) (afterEscape : Bool)
  | done (outcome : Session × Option Diagnostic)

namespace Session

/-- Adds the token of the next `length` bytes and moves the cursor behind them. -/
def emit? (s : Session) (kind : Kind) (length : Nat) : Option Session := do
  let value ← slice? s.source.toList s.cursor (s.cursor + length)
  let span := Span.between s.file s.cursor (s.cursor + length)
  return (s.push ⟨kind, String.ofList value, span⟩).skip length

def fail (s : Session) (fault : Fault) (offset : Nat) : Session × Option Diagnostic :=
  (s, some ⟨fault, .at s.file offset⟩)

/-- Keeps two escapes in a row apart by an empty run. -/
def separate? (s : Session) (afterEscape : Bool) : Option Session :=
  if afterEscape then s.emit? .content 0 else some s

/-- The round of a string in front of a backslash. -/
def escapeRound? (s : Session) (afterEscape : Bool) (text : List Char) : Option StringRound :=
  if byteLength text = 1 then
    some (.done (s.fail .unterminatedString (byteLength s.source.toList)))
  else
    match readEscape? text.tail with
    | some (body, _) => do
      let s₁ ← s.separate? afterEscape
      let s₂ ← s₁.emit? .escape (1 + byteLength body)
      return .again s₂ true
    | none => do
      let body ← sliceFrom? text 1
      let offset := escapeErrorOffset (utf8Bytes body) + 1
      let right ← slice? text 0 (min offset (byteLength text))
      let behind ← sliceFrom? text (min offset (byteLength text))
      return .done (s.fail (.malformedEscape (String.ofList (right ++ behind.take 1)))
        (s.cursor + offset))

def contentRound? (s : Session) (text : List Char) : Option StringRound :=
  match s.lexicon.scanner text with
  | none => some (.done (s.fail .unterminatedString (byteLength s.source.toList)))
  | some length => do
    if ← startsWithRun? text length then
      let s' ← s.emit? .content length
      return .again s' false
    else
      return .done (s.fail (.unrecognised (String.ofList (text.take 1)) [.content]) s.cursor)

def stringRound? (s : Session) (afterEscape : Bool) : Option StringRound := do
  let text ← s.unread?
  match text with
  | [] => return .done (s.fail .unterminatedString s.cursor)
  | '"' :: _ =>
    let s' ← s.emit? .quote 1
    return .done (s', none)
  | '\\' :: _ => s.escapeRound? afterEscape text
  | _ => s.contentRound? text

section Ahead

variable {s s' t : Session} {ae ae' : Bool} {text : List Char} {kind : Kind} {length : Nat}

/-- A later state of a session: its cursor is further on and still inside the source. -/
structure Ahead (s s' : Session) : Prop where
  source : s'.source = s.source
  further : s.cursor < s'.cursor
  within : s'.cursor ≤ byteLength s.source.toList

theorem Ahead.trans (h : s.Ahead s') (h' : s'.Ahead t) : s.Ahead t where
  source := h'.source.trans h.source
  further := h.further.trans h'.further
  within := h.source ▸ h'.within

def remaining (s : Session) : Nat := byteLength s.source.toList - s.cursor

theorem Ahead.remaining_lt (h : s.Ahead s') : s'.remaining < s.remaining := by
  have hfurther := h.further
  have hwithin := h.within
  rw [remaining, remaining, h.source]
  omega

theorem emit?_some (h : s.emit? kind length = some s') :
    s'.source = s.source ∧ s'.cursor = s.cursor + length ∧
      s'.cursor ≤ byteLength s.source.toList := by
  obtain ⟨value, hvalue, hs'⟩ := Option.bind_eq_some_iff.mp h
  cases hs'
  exact ⟨rfl, rfl, le_of_slice? hvalue⟩

theorem ahead_of_emit? (hpos : 0 < length) (h : s.emit? kind length = some s') : s.Ahead s' := by
  obtain ⟨hsource, hcursor, hwithin⟩ := emit?_some h
  exact ⟨hsource, by omega, hwithin⟩

theorem separate?_some (h : s.separate? ae = some s') :
    s'.source = s.source ∧ s'.cursor = s.cursor := by
  unfold separate? at h
  split at h
  · obtain ⟨hsource, hcursor, _⟩ := emit?_some h
    exact ⟨hsource, hcursor⟩
  · cases h
    exact ⟨rfl, rfl⟩

theorem ahead_of_escapeRound? (h : s.escapeRound? ae text = some (.again s' ae')) :
    s.Ahead s' := by
  unfold escapeRound? at h
  split at h
  · cases h
  · split at h
    · obtain ⟨s₁, hgap, h⟩ := Option.bind_eq_some_iff.mp h
      obtain ⟨s₂, hemit, hagain⟩ := Option.bind_eq_some_iff.mp h
      cases hagain
      obtain ⟨hsource, hcursor⟩ := separate?_some hgap
      have hahead := ahead_of_emit? (by omega) hemit
      exact ⟨hahead.source.trans hsource, hcursor ▸ hahead.further, hsource ▸ hahead.within⟩
    · obtain ⟨_, _, h⟩ := Option.bind_eq_some_iff.mp h
      obtain ⟨_, _, h⟩ := Option.bind_eq_some_iff.mp h
      obtain ⟨_, _, hdone⟩ := Option.bind_eq_some_iff.mp h
      cases hdone

theorem ahead_of_contentRound? (h : s.contentRound? text = some (.again s' ae')) :
    s.Ahead s' := by
  unfold contentRound? at h
  split at h
  · cases h
  · obtain ⟨plain, hplain, h⟩ := Option.bind_eq_some_iff.mp h
    cases plain with
    | false => cases h
    | true =>
      obtain ⟨_, hemit, hagain⟩ := Option.bind_eq_some_iff.mp h
      cases hagain
      exact ahead_of_emit? (pos_of_startsWithRun? hplain) hemit

/-- A round of a string that is not its last takes at least one byte. -/
theorem ahead_of_again (h : s.stringRound? ae = some (.again s' ae')) : s.Ahead s' := by
  obtain ⟨text, _, hround⟩ := Option.bind_eq_some_iff.mp h
  split at hround
  · cases hround
  · obtain ⟨_, _, hdone⟩ := Option.bind_eq_some_iff.mp hround
    cases hdone
  · exact ahead_of_escapeRound? hround
  · exact ahead_of_contentRound? hround

end Ahead

/-- Goes through a string from behind its opening quote. -/
def stringLoop? (s : Session) (afterEscape : Bool) : Option (Session × Option Diagnostic) :=
  match _hround : s.stringRound? afterEscape with
  | none => none
  | some (.again s' afterEscape') => s'.stringLoop? afterEscape'
  | some (.done outcome) => some outcome
termination_by s.remaining
decreasing_by exact (ahead_of_again _hround).remaining_lt

/-- Only the closing quote ends a string without a fault. -/
theorem ahead_of_done {s s' : Session} {ae : Bool}
    (h : s.stringRound? ae = some (.done (s', none))) : s.Ahead s' := by
  obtain ⟨text, _, hround⟩ := Option.bind_eq_some_iff.mp h
  split at hround
  · simp [fail] at hround
  · obtain ⟨_, hemit, hdone⟩ := Option.bind_eq_some_iff.mp hround
    cases hdone
    exact ahead_of_emit? Nat.one_pos hemit
  · unfold escapeRound? at hround
    split at hround
    · simp [fail] at hround
    · split at hround
      · obtain ⟨_, _, hround⟩ := Option.bind_eq_some_iff.mp hround
        obtain ⟨_, _, hagain⟩ := Option.bind_eq_some_iff.mp hround
        cases hagain
      · obtain ⟨_, _, hround⟩ := Option.bind_eq_some_iff.mp hround
        obtain ⟨_, _, hround⟩ := Option.bind_eq_some_iff.mp hround
        obtain ⟨_, _, hdone⟩ := Option.bind_eq_some_iff.mp hround
        simp [fail] at hdone
  · unfold contentRound? at hround
    split at hround
    · simp [fail] at hround
    · obtain ⟨plain, _, hround⟩ := Option.bind_eq_some_iff.mp hround
      cases plain with
      | false => simp [fail] at hround
      | true =>
        obtain ⟨_, _, hagain⟩ := Option.bind_eq_some_iff.mp hround
        cases hagain

theorem ahead_of_stringLoop? {s s' : Session} {ae : Bool}
    (h : s.stringLoop? ae = some (s', none)) : s.Ahead s' := by
  fun_induction stringLoop? s ae with
  | case1 => cases h
  | case2 s ae t ae' hround ih => exact (ahead_of_again hround).trans (ih h)
  | case3 s ae outcome hround =>
    cases h
    exact ahead_of_done hround

section Cursor

variable {s : Session} {text before first rest : List Char} {ls ms : List Lexeme}

def behind (s : Session) (ls : List Lexeme) : Session :=
  { s with
    cursor := s.cursor + byteLength (textOf ls)
    tokens := s.tokens ++ placeAll s.file s.cursor ls }

theorem behind_nil (s : Session) : s.behind [] = s := by
  simp [behind, placeAll, byteLength]

theorem behind_append (s : Session) (ls ms : List Lexeme) :
    (s.behind ls).behind ms = s.behind (ls ++ ms) := by
  simp [behind, placeAll_append, Nat.add_assoc]

theorem exists_before (h : s.unread? = some text) :
    ∃ before, s.source.toList = before ++ text ∧ s.cursor = byteLength before := by
  obtain ⟨⟨before, after⟩, hsplit, rfl⟩ := Option.map_eq_some_iff.mp h
  obtain ⟨hsource, hcursor⟩ := append_of_splitAtByte? hsplit
  exact ⟨before, hsource.symm, hcursor.symm⟩

theorem unread?_of_append (hsource : s.source.toList = before ++ text)
    (hcursor : s.cursor = byteLength before) : s.unread? = some text := by
  rw [unread?, hsource, hcursor]
  exact sliceFrom?_append before text

theorem unread?_behind (h : s.unread? = some (textOf ls ++ rest)) :
    (s.behind ls).unread? = some rest := by
  obtain ⟨before, hsource, hcursor⟩ := exists_before h
  have hsource' : (s.behind ls).source.toList = (before ++ textOf ls) ++ rest :=
    hsource.trans (List.append_assoc _ _ _).symm
  apply unread?_of_append hsource'
  rw [byteLength_append, ← hcursor]
  rfl

theorem byteLength_source (h : s.unread? = some text) :
    byteLength s.source.toList = s.cursor + byteLength text := by
  obtain ⟨before, hsource, hcursor⟩ := exists_before h
  rw [hsource, byteLength_append, hcursor]

theorem emit?_eq (kind : Kind) (h : s.unread? = some (first ++ rest)) :
    s.emit? kind (byteLength first) = some (s.behind [⟨kind, first⟩]) := by
  obtain ⟨before, hsource, hcursor⟩ := exists_before h
  have hslice : slice? s.source.toList s.cursor (s.cursor + byteLength first) = some first := by
    rw [hsource, hcursor]
    exact slice?_append before first rest
  rw [emit?, hslice]
  simp [push, skip, behind, placeAll, Lexeme.place]

def outcome (s : Session) (r : Reading) : Session × Option Diagnostic :=
  (s.behind r.lexemes, r.fault?.map fun (fault, distance) =>
    ⟨fault, .at s.file ((s.behind r.lexemes).cursor + distance)⟩)

theorem outcome_failed (s : Session) (fault : Fault) (distance : Nat) (rest : List Char) :
    s.outcome (.failed fault distance rest) = s.fail fault (s.cursor + distance) := by
  simp [outcome, Reading.failed, fail, behind_nil]

theorem outcome_after (s : Session) (ls : List Lexeme) (r : Reading) :
    s.outcome (r.after ls) = (s.behind ls).outcome r := by
  simp only [outcome, Reading.after, behind_append]
  rfl

end Cursor

section Strings

variable {s : Session} {ae : Bool} {c : Char} {text rest rest' body run : List Char}
  {fault : Fault} {distance : Nat}

theorem separate?_eq (ae : Bool) (h : s.unread? = some text) :
    ∃ ls, s.separate? ae = some (s.behind ls) ∧ textOf ls = [] ∧
      ∀ body, ls ++ [⟨.escape, '\\' :: body⟩] = escapeLexemes ae body := by
  cases ae with
  | false => exact ⟨[], by rw [behind_nil]; rfl, rfl, fun _ => rfl⟩
  | true =>
    have hempty : s.emit? .content (byteLength []) = some (s.behind [⟨.content, []⟩]) :=
      emit?_eq .content h
    exact ⟨[⟨.content, []⟩], hempty, rfl, fun _ => rfl⟩

theorem escapeRound?_of_ok (h : s.unread? = some ('\\' :: rest))
    (hbody : readEscape rest = .ok (body, rest')) :
    s.escapeRound? ae ('\\' :: rest) = some (.again (s.behind (escapeLexemes ae body)) true) := by
  have hparts : readEscape? rest = some (body, rest') := by
    unfold readEscape at hbody
    split at hbody
    · rename_i hparts
      cases hbody
      exact hparts
    · split at hbody <;> cases hbody
  obtain ⟨happend, hne⟩ := append_of_readEscape? hparts
  have hlong : ¬ byteLength ('\\' :: rest) = 1 := by
    have hpos := byteLength_pos hne
    have hlength := congrArg byteLength happend
    rw [byteLength_append] at hlength
    change ¬ 1 + byteLength rest = 1
    omega
  obtain ⟨ls, hgap, htext, hlexemes⟩ := separate?_eq ae h
  have hunread : (s.behind ls).unread? = some (('\\' :: body) ++ rest') := by
    apply unread?_behind
    rw [htext, h, ← happend]
    rfl
  have hemit := emit?_eq .escape hunread
  rw [behind_append, hlexemes] at hemit
  have hlength : byteLength ('\\' :: body) = 1 + byteLength body := rfl
  rw [hlength] at hemit
  simp only [escapeRound?, if_neg hlong, List.tail_cons, hparts, hgap, Option.bind_eq_bind,
    Option.bind_some, hemit]
  rfl

theorem escapeRound?_of_error (h : s.unread? = some ('\\' :: rest))
    (hbody : readEscape rest = .error (fault, distance)) :
    s.escapeRound? ae ('\\' :: rest) = some (.done (s.fail fault (s.cursor + distance))) := by
  cases hparts : readEscape? rest with
  | some parts =>
    rw [readEscape, hparts] at hbody
    cases hbody
  | none =>
    by_cases hnil : rest = []
    · subst hnil
      cases hbody
      have hone : byteLength ['\\'] = 1 := rfl
      rw [escapeRound?, if_pos hone, byteLength_source h, hone]
    · have hlong : ¬ byteLength ('\\' :: rest) = 1 := by
        have hpos := byteLength_pos hnil
        change ¬ 1 + byteLength rest = 1
        omega
      rw [readEscape, hparts] at hbody
      simp only [if_neg hnil, Except.error.injEq, Prod.mk.injEq] at hbody
      obtain ⟨rfl, rfl⟩ := hbody
      -- What is right of the escape is a beginning of the text, so both cuts fall behind it.
      obtain ⟨wrong, hwrong⟩ := escapeStem_isPrefix rest
      have hdrop : rest.drop (escapeStem rest).length = wrong :=
        (congrArg (List.drop _) hwrong.symm).trans List.drop_left
      have htext : ('\\' :: escapeStem rest) ++ wrong = '\\' :: rest := congrArg _ hwrong
      have hstem : byteLength ('\\' :: escapeStem rest) = 1 + byteLength (escapeStem rest) := rfl
      have hoffset : min (byteLength (escapeStem rest) + 1) (byteLength ('\\' :: rest)) =
          byteLength ('\\' :: escapeStem rest) := by
        have hle := byteLength_le_of_prefix ⟨wrong, htext⟩
        omega
      have hbehind : sliceFrom? ('\\' :: rest) 1 = some rest := sliceFrom?_append ['\\'] rest
      have hright := slice?_zero_append ('\\' :: escapeStem rest) wrong
      have hleft := sliceFrom?_append ('\\' :: escapeStem rest) wrong
      rw [htext] at hright hleft
      simp only [escapeRound?, if_neg hlong, List.tail_cons, hparts, hbehind, Option.bind_eq_bind,
        Option.bind_some, escapeErrorOffset_utf8Bytes, hoffset, hright, hleft, hdrop]
      rw [Nat.add_comm 1]
      rfl

theorem contentRound?_of_ok (h : s.unread? = some text)
    (hrun : readContent s.lexicon.scanner text = .ok (run, rest)) :
    s.contentRound? text = some (.again (s.behind [⟨.content, run⟩]) false) := by
  unfold readContent at hrun
  split at hrun
  · cases hrun
  · rename_i length hscan
    split at hrun
    · rename_i parts hparts
      cases hrun
      obtain ⟨happend, hlength⟩ := append_of_splitAtByte? (splitAtByte?_of_plainRun? hparts)
      have hemit := emit?_eq .content (h.trans (congrArg some happend.symm))
      rw [hlength] at hemit
      simp only [contentRound?, hscan, startsWithRun?_eq, hparts, Option.isSome_some,
        Option.bind_eq_bind, Option.bind_some, if_true, hemit]
      rfl
    · cases hrun

theorem contentRound?_of_error (h : s.unread? = some text)
    (hrun : readContent s.lexicon.scanner text = .error (fault, distance)) :
    s.contentRound? text = some (.done (s.fail fault (s.cursor + distance))) := by
  unfold readContent at hrun
  split at hrun
  · rename_i hscan
    cases hrun
    rw [contentRound?, hscan, byteLength_source h]
  · rename_i length hscan
    split at hrun
    · cases hrun
    · rename_i hparts
      cases hrun
      simp only [contentRound?, hscan, startsWithRun?_eq, hparts]
      rfl

theorem stringRound?_quote (h : s.unread? = some ('"' :: rest)) :
    s.stringRound? ae = some (.done (s.behind [⟨.quote, ['"']⟩], none)) := by
  have hquote : s.unread? = some (['"'] ++ rest) := h
  have hemit : s.emit? .quote 1 = some (s.behind [⟨.quote, ['"']⟩]) := emit?_eq .quote hquote
  rw [stringRound?, h]
  change (do
    let s' ← s.emit? .quote 1
    return StringRound.done (s', none)) = _
  rw [hemit]
  rfl

theorem stringRound?_escape (h : s.unread? = some ('\\' :: rest)) :
    s.stringRound? ae = s.escapeRound? ae ('\\' :: rest) := by
  rw [stringRound?, h]
  rfl

theorem stringRound?_content (h : s.unread? = some (c :: rest)) (hquote : c ≠ '"')
    (hslash : c ≠ '\\') : s.stringRound? ae = s.contentRound? (c :: rest) := by
  rw [stringRound?, h, Option.bind_eq_bind, Option.bind_some]
  split <;> simp_all

theorem stringLoop?_done {o : Session × Option Diagnostic}
    (h : s.stringRound? ae = some (.done o)) : s.stringLoop? ae = some o := by
  rw [stringLoop?]
  split <;> simp_all

theorem stringLoop?_again {s' : Session} {ae' : Bool}
    (h : s.stringRound? ae = some (.again s' ae')) : s.stringLoop? ae = s'.stringLoop? ae' := by
  rw [stringLoop?]
  split <;> simp_all

/-- The loop through a string cuts between characters and reads what is read character by
character. -/
theorem stringLoop?_eq {scanner : Scanner} (hscanner : s.lexicon.scanner = scanner)
    (h : s.unread? = some text) :
    s.stringLoop? ae = some (s.outcome (readStringBody scanner ae text)) := by
  fun_induction readStringBody scanner ae text generalizing s with
  | case1 ae =>
    rw [outcome_failed]
    apply stringLoop?_done
    rw [stringRound?, h]
    rfl
  | case2 ae rest => exact stringLoop?_done (stringRound?_quote h)
  | case3 ae rest body rest' hbody ih =>
    have hround : s.stringRound? ae = some (.again (s.behind (escapeLexemes ae body)) true) :=
      (stringRound?_escape h).trans (escapeRound?_of_ok h hbody)
    have hunread : (s.behind (escapeLexemes ae body)).unread? = some rest' := by
      apply unread?_behind
      rw [h, ← readEscape_ok hbody]
      cases ae <;> simp [escapeLexemes]
    rw [stringLoop?_again hround, outcome_after]
    exact ih hscanner hunread
  | case4 ae rest fault distance hbody =>
    rw [outcome_failed]
    exact stringLoop?_done ((stringRound?_escape h).trans (escapeRound?_of_error h hbody))
  | case5 ae c rest hquote hslash run rest' hrun ih =>
    subst hscanner
    have hround : s.stringRound? ae = some (.again (s.behind [⟨.content, run⟩]) false) :=
      (stringRound?_content h hquote hslash).trans (contentRound?_of_ok h hrun)
    have hunread : (s.behind [⟨.content, run⟩]).unread? = some rest' := by
      apply unread?_behind
      rw [h, ← (readContent_ok hrun).1]
      simp
    rw [stringLoop?_again hround, outcome_after]
    exact ih rfl hunread
  | case6 ae c rest hquote hslash fault distance hrun =>
    subst hscanner
    rw [outcome_failed]
    exact stringLoop?_done
      ((stringRound?_content h hquote hslash).trans (contentRound?_of_error h hrun))

end Strings

end Session

end HslTree
