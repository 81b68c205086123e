import HslTree.Proofs.ByteCursor
import HslTree.Proofs.ContentRuns
import HslTree.Proofs.Gaps

/-! Every run returns. Reading round by round, by byte offsets, never cuts inside a character or
beyond the end of the source, moves the cursor on in every round, and gives what reading character
by character gives. So it does however often a session is read on, whatever stopped it before. -/

namespace HslTree

theorem Reading.Covers.text_ne {r : Reading} {text : List Char} (h : r.Covers text)
    (hlt : r.rest.length < text.length) : textOf r.lexemes ≠ [] := by
  intro hnil
  have hrest := h.text
  rw [hnil, List.nil_append] at hrest
  rw [hrest] at hlt
  exact Nat.lt_irrefl _ hlt

/-- How many bytes a pattern takes at the start of a text. Of a letter or a string in quotes it is
the opening quote. -/
def Pattern.matched? (lexicon : Lexicon) : Pattern → List Char → Option Nat
  | number, text => (readNumber? text).map fun (digits, _) => byteLength digits
  | minus, text => (readMinus? text).map fun _ => 2
  | char, text => if text.head? = some '\'' then some 1 else none
  | string, text => if text.head? = some '"' then some 1 else none
  | pattern, text => (pattern.read? lexicon text).map fun r => byteLength (textOf r.lexemes)

def startsWithLetter : List Char → Bool
  | '\'' :: c :: '\'' :: _ => c.isAlpha
  | _ => false

theorem readPhrase?_text_ne {isWord : Char → Bool} {phrase : Phrase} {text : List Char}
    {r : Reading} (h : readPhrase? isWord phrase text = some r) : textOf r.lexemes ≠ [] := by
  simp only [readPhrase?] at h
  split at h
  · rename_i hwords
    cases h
    simpa [Reading.single] using hwords.1
  · cases h

theorem Pattern.pos_of_matched? {lexicon : Lexicon} {pattern : Pattern} {text : List Char}
    {n : Nat} (h : pattern.matched? lexicon text = some n) : 0 < n := by
  cases pattern with
  | number =>
    obtain ⟨⟨digits, rest⟩, hdigits, rfl⟩ := Option.map_eq_some_iff.mp h
    exact byteLength_pos (append_of_readNumber? hdigits).2
  | minus =>
    obtain ⟨_, _, rfl⟩ := Option.map_eq_some_iff.mp h
    exact Nat.two_pos
  | char | string =>
    simp only [matched?] at h
    split at h
    · cases h
      exact Nat.one_pos
    · cases h
  | phrase p =>
    obtain ⟨r, hr, rfl⟩ := Option.map_eq_some_iff.mp h
    exact byteLength_pos (readPhrase?_text_ne hr)
  | blank =>
    obtain ⟨r, hr, rfl⟩ := Option.map_eq_some_iff.mp h
    exact byteLength_pos ((Pattern.read?_covers (by decide) hr).text_ne (readRun?_rest_lt hr))
  | comment =>
    obtain ⟨r, hr, rfl⟩ := Option.map_eq_some_iff.mp h
    exact byteLength_pos ((Pattern.read?_covers (by decide) hr).text_ne (readComment?_rest_lt hr))
  | identifier =>
    obtain ⟨r, hr, rfl⟩ := Option.map_eq_some_iff.mp h
    exact byteLength_pos
      ((Pattern.read?_covers (by decide) hr).text_ne (readIdentifier?_rest_lt hr))

namespace Session

def emitNumber? (s : Session) (length : Nat) : Option (Session × Option Diagnostic) := do
  let text ← s.unread?
  let rest ← sliceFrom? text length
  if rest.head?.any isAsciiWordChar then
    let tail := byteLength (rest.takeWhile isAsciiWordChar)
    let token ← slice? text 0 (length + tail)
    return s.fail (.malformedNumber (String.ofList token)) s.cursor
  else
    let s' ← s.emit? .number length
    return (s', none)

def emitChar? (s : Session) : Option (Session × Option Diagnostic) := do
  let text ← s.unread?
  if startsWithLetter text then
    let s' ← s.emit? .char 3
    return (s', none)
  else
    let behind ← sliceFrom? text 1
    let distance := if behind.head?.any Char.isAlpha then 2 else 1
    return s.fail (.malformedChar (String.ofList (text.take 3))) (s.cursor + distance)

/-- Takes a pattern that is known to apply at the cursor and to match so many bytes there. -/
def take? (s : Session) (pattern : Pattern) (length : Nat) :
    Option (Session × Option Diagnostic) :=
  match pattern with
  | .number => s.emitNumber? length
  | .char => s.emitChar?
  | .minus => (s.emit? .minus 1).map (·, none)
  | .string => do
    let s' ← s.emit? .quote 1
    s'.stringLoop? false
  | pattern => (s.emit? pattern.kind length).map (·, none)

/-- One round of reading: the first pattern that applies is taken. -/
def round? (s : Session) : Option (Session × Option Diagnostic) := do
  let text ← s.unread?
  match s.lexicon.patterns.find? fun pattern => (pattern.matched? s.lexicon text).isSome with
  | some pattern => s.take? pattern ((pattern.matched? s.lexicon text).getD 0)
  | none => return s.fail (s.lexicon.unrecognised text) s.cursor

section Ahead

variable {s s' : Session} {pattern : Pattern} {text : List Char} {length : Nat}

theorem ahead_of_emitNumber? (hpos : 0 < length) (h : s.emitNumber? length = some (s', none)) :
    s.Ahead s' := by
  obtain ⟨text, _, h⟩ := Option.bind_eq_some_iff.mp h
  obtain ⟨rest, _, h⟩ := Option.bind_eq_some_iff.mp h
  split at h
  · obtain ⟨_, _, hfail⟩ := Option.bind_eq_some_iff.mp h
    simp [fail] at hfail
  · obtain ⟨_, hemit, hdone⟩ := Option.bind_eq_some_iff.mp h
    cases hdone
    exact ahead_of_emit? hpos hemit

theorem ahead_of_emitChar? (h : s.emitChar? = some (s', none)) : s.Ahead s' := by
  obtain ⟨text, _, h⟩ := Option.bind_eq_some_iff.mp h
  split at h
  · obtain ⟨_, hemit, hdone⟩ := Option.bind_eq_some_iff.mp h
    cases hdone
    exact ahead_of_emit? (by decide) hemit
  · obtain ⟨_, _, hfail⟩ := Option.bind_eq_some_iff.mp h
    simp [fail] at hfail

theorem ahead_of_take? (hpos : 0 < length) (h : s.take? pattern length = some (s', none)) :
    s.Ahead s' := by
  cases pattern with
  | number => exact ahead_of_emitNumber? hpos h
  | char => exact ahead_of_emitChar? h
  | string =>
    obtain ⟨s₁, hemit, hloop⟩ := Option.bind_eq_some_iff.mp h
    exact (ahead_of_emit? Nat.one_pos hemit).trans (ahead_of_stringLoop? hloop)
  | minus =>
    obtain ⟨_, hemit, hdone⟩ := Option.map_eq_some_iff.mp h
    cases hdone
    exact ahead_of_emit? Nat.one_pos hemit
  | blank | comment | phrase p | identifier =>
    obtain ⟨_, hemit, hdone⟩ := Option.map_eq_some_iff.mp h
    cases hdone
    exact ahead_of_emit? hpos hemit

theorem ahead_of_round? (h : s.round? = some (s', none)) : s.Ahead s' := by
  obtain ⟨text, _, h⟩ := Option.bind_eq_some_iff.mp h
  split at h
  · rename_i pattern hfind
    have hmatched := List.find?_some hfind
    obtain ⟨length, hlength⟩ := Option.isSome_iff_exists.mp hmatched
    rw [hlength] at h
    exact ahead_of_take? (Pattern.pos_of_matched? hlength) h
  · simp [fail] at h

end Ahead

/-- Reads on from the cursor to the end of the source or to the first fault, round by round. -/
def loop? (s : Session) : Option (Session × Option Diagnostic) :=
  if s.atEnd then some ({ s with tokens := s.tokensClosedAt s.cursor }, none)
  else
    match _hround : s.round? with
    | none => none
    | some (s', none) => s'.loop?
    | some (s', some x) => some (s', some x)
termination_by s.remaining
decreasing_by exact (ahead_of_round? _hround).remaining_lt

end Session

section Patterns

variable {lexicon : Lexicon} {pattern : Pattern} {text : List Char} {r : Reading}

theorem isSome_readNumeral? (text : List Char) :
    (readNumeral? text).isSome = (readNumber? text).isSome := by
  unfold readNumeral?
  cases readNumber? text with
  | none => rfl
  | some parts =>
    obtain ⟨digits, rest⟩ := parts
    cases htail : rest.takeWhile isAsciiWordChar with
    | nil => simp [htail]
    | cons c tail => simp [htail]

theorem isSome_readChar? (text : List Char) :
    (readChar? text).isSome = (text.head? == some '\'') := by
  unfold readChar?
  split
  · split
    · split <;> rfl
    · rfl
  · rename_i hhead
    simp [head?_ne hhead]

theorem isSome_readString? (scanner : Scanner) (text : List Char) :
    (readString? scanner text).isSome = (text.head? == some '"') := by
  unfold readString?
  split
  · rfl
  · rename_i hhead
    simp [head?_ne hhead]

theorem Pattern.isSome_matched? (lexicon : Lexicon) (pattern : Pattern) (text : List Char) :
    (pattern.matched? lexicon text).isSome = (pattern.read? lexicon text).isSome := by
  cases pattern with
  | number => exact Option.isSome_map.trans (isSome_readNumeral? text).symm
  | char =>
    refine Eq.trans ?_ (isSome_readChar? text).symm
    by_cases hhead : text.head? = some '\'' <;> simp [matched?, hhead]
  | string =>
    refine Eq.trans ?_ (isSome_readString? lexicon.scanner text).symm
    by_cases hhead : text.head? = some '"' <;> simp [matched?, hhead]
  | minus | blank | comment | phrase p | identifier => exact Option.isSome_map

theorem Lexicon.readNext?_eq (lexicon : Lexicon) (text : List Char) :
    lexicon.readNext? text =
      (lexicon.patterns.find? fun pattern => (pattern.matched? lexicon text).isSome).bind
        (·.read? lexicon text) := by
  unfold readNext?
  induction lexicon.patterns with
  | nil => rfl
  | cons pattern patterns ih =>
    rw [List.findSome?_cons, List.find?_cons, Pattern.isSome_matched?]
    cases hread : pattern.read? lexicon text with
    | none => exact ih
    | some r => exact hread.symm

/-- What is read without a string's loop or a fault is one token. -/
theorem Pattern.read?_first (hp : pattern ≠ .string) (hkind : pattern.kind ≠ .endOfInput)
    (h : pattern.read? lexicon text = some r) (hlt : r.rest.length < text.length) :
    ∃ first, first ++ r.rest = text ∧ r = .single pattern.kind first r.rest := by
  rcases Pattern.read?_single hp h with ⟨first, hr⟩ | ⟨fault, distance, _, hr⟩
  · have hcovers := (Pattern.read?_covers hkind h).text
    rw [hr] at hcovers
    exact ⟨first, by simpa [Reading.single] using hcovers, hr⟩
  · rw [hr] at hlt
    exact absurd hlt (Nat.lt_irrefl _)

theorem charFault_eq (rest : List Char) :
    readChar?.charFault rest = .failed (.malformedChar (String.ofList ('\'' :: rest.take 2)))
      (if rest.head?.any Char.isAlpha then 2 else 1) ('\'' :: rest) := by
  cases rest <;> rfl

theorem utf8Size_of_isAlpha {c : Char} (h : c.isAlpha = true) : c.utf8Size = 1 := by
  have hletter : 65 ≤ c.toNat ∧ c.toNat ≤ 90 ∨ 97 ≤ c.toNat ∧ c.toNat ≤ 122 := by
    simpa [Char.isAlpha, Char.isUpper, Char.isLower, UInt32.le_iff_toNat_le] using h
  have hle : c.toNat ≤ 127 := by omega
  exact Char.utf8Size_eq_one_iff.mpr (UInt32.le_iff_toNat_le.mpr hle)

end Patterns

namespace Session

section Rounds

variable {s : Session} {pattern : Pattern} {text : List Char} {r : Reading}

theorem emit?_matched (hp : pattern ≠ .string) (hkind : pattern.kind ≠ .endOfInput)
    (h : s.unread? = some text) (hr : pattern.read? s.lexicon text = some r)
    (hlt : r.rest.length < text.length) :
    s.emit? pattern.kind (byteLength (textOf r.lexemes)) = some (s.behind r.lexemes) ∧
      r.fault? = none := by
  obtain ⟨first, hfirst, hsingle⟩ := Pattern.read?_first hp hkind hr hlt
  rw [← hfirst] at h
  rw [hsingle]
  have hemit := emit?_eq pattern.kind h
  simp [Reading.single, hemit]

theorem emitNumber?_eq (h : s.unread? = some text) (hr : readNumeral? text = some r) :
    s.emitNumber? (((readNumber? text).map fun (digits, _) => byteLength digits).getD 0) =
      some (s.outcome r) := by
  unfold readNumeral? at hr
  split at hr
  · rename_i digits rest hdigits
    obtain ⟨happend, _⟩ := append_of_readNumber? hdigits
    have hrest : sliceFrom? text (byteLength digits) = some rest := by
      rw [← happend]
      exact sliceFrom?_append digits rest
    simp only [emitNumber?, hdigits, Option.map_some, Option.getD_some, h, hrest,
      Option.bind_eq_bind, Option.bind_some]
    split at hr
    · rename_i htail
      cases hr
      have hword : rest.head?.any isAsciiWordChar = false := by
        cases rest with
        | nil => rfl
        | cons c rest => simpa using htail
      have hemit := emit?_eq .number (h.trans (congrArg some happend.symm))
      rw [hword, hemit]
      rfl
    · rename_i htail
      cases hr
      have hword : rest.head?.any isAsciiWordChar = true := by
        cases rest with
        | nil => exact absurd rfl htail
        | cons c rest => simpa using htail
      -- The word behind the number is the part of the text up to the first other character.
      have htoken : slice? text 0
          (byteLength digits + byteLength (rest.takeWhile isAsciiWordChar)) =
            some (digits ++ rest.takeWhile isAsciiWordChar) := by
        have hcut := slice?_zero_append (digits ++ rest.takeWhile isAsciiWordChar)
          (rest.dropWhile isAsciiWordChar)
        rwa [List.append_assoc, List.takeWhile_append_dropWhile, happend, byteLength_append] at hcut
      rw [if_pos hword, htoken, outcome_failed]
      rfl
  · cases hr

theorem emitChar?_eq (h : s.unread? = some text) (hr : readChar? text = some r) :
    s.emitChar? = some (s.outcome r) := by
  unfold readChar? at hr
  split at hr
  · rename_i rest
    have hbehind : sliceFrom? ('\'' :: rest) 1 = some rest := sliceFrom?_append ['\''] rest
    have hfault (hletter : startsWithLetter ('\'' :: rest) = false) :
        s.emitChar? = some (s.outcome (readChar?.charFault rest)) := by
      simp only [emitChar?, h, Option.bind_eq_bind, Option.bind_some, hletter, hbehind]
      rw [charFault_eq, outcome_failed]
      rfl
    split at hr
    · rename_i c after
      split at hr
      · rename_i hc
        cases hr
        have htext : s.unread? = some (['\'', c, '\''] ++ after) := h
        have hthree : byteLength ['\'', c, '\''] = 3 := by
          change 1 + (c.utf8Size + 1) = 3
          rw [utf8Size_of_isAlpha hc]
        have hemit := emit?_eq .char htext
        rw [hthree] at hemit
        have hletter : startsWithLetter ('\'' :: c :: '\'' :: after) = true := hc
        simp only [emitChar?, h, Option.bind_eq_bind, Option.bind_some, if_pos hletter, hemit]
        rfl
      · rename_i hc
        cases hr
        exact hfault (Bool.eq_false_of_not_eq_true hc)
    · rename_i hnone
      cases hr
      apply hfault
      unfold startsWithLetter
      split
      · rename_i c after heq
        cases heq
        exact absurd rfl (hnone c after)
      · rfl
  · cases hr

theorem take?_eq (hkind : pattern.kind ≠ .endOfInput) (h : s.unread? = some text)
    (hr : pattern.read? s.lexicon text = some r) :
    s.take? pattern ((pattern.matched? s.lexicon text).getD 0) = some (s.outcome r) := by
  -- Four patterns have nothing of their own: the match is the token.
  have hplain (hp : pattern ≠ .string) (hlt : r.rest.length < text.length)
      (htake : ∀ n, s.take? pattern n = (s.emit? pattern.kind n).map (·, none))
      (hmatched : pattern.matched? s.lexicon text =
        (pattern.read? s.lexicon text).map fun r => byteLength (textOf r.lexemes)) :
      s.take? pattern ((pattern.matched? s.lexicon text).getD 0) = some (s.outcome r) := by
    obtain ⟨hemit, hfault⟩ := emit?_matched hp hkind h hr hlt
    rw [hmatched, hr, Option.map_some, Option.getD_some, htake, hemit, outcome, hfault]
    rfl
  cases pattern with
  | blank => exact hplain (by simp) (readRun?_rest_lt hr) (fun _ => rfl) rfl
  | comment => exact hplain (by simp) (readComment?_rest_lt hr) (fun _ => rfl) rfl
  | phrase p => exact hplain (by simp) (readPhrase?_rest_lt hr) (fun _ => rfl) rfl
  | identifier => exact hplain (by simp) (readIdentifier?_rest_lt hr) (fun _ => rfl) rfl
  | number => exact emitNumber?_eq h hr
  | char => exact emitChar?_eq h hr
  | minus =>
    obtain ⟨hemit, hfault⟩ := emit?_matched (by simp) hkind h hr (readMinus?_rest_lt hr)
    have hone : byteLength (textOf r.lexemes) = 1 := by
      change readMinus? text = some r at hr
      unfold readMinus? at hr
      split at hr
      · split at hr
        · cases hr
          rfl
        · cases hr
      · cases hr
    rw [hone] at hemit
    change (s.emit? .minus 1).map (·, none) = some (s.outcome r)
    rw [outcome, hfault]
    exact congrArg (Option.map (·, none)) hemit
  | string =>
    change readString? s.lexicon.scanner text = some r at hr
    unfold readString? at hr
    split at hr
    · rename_i rest
      cases hr
      have hquote : s.unread? = some (['"'] ++ rest) := h
      have hemit : s.emit? .quote 1 = some (s.behind [⟨.quote, ['"']⟩]) := emit?_eq .quote hquote
      change (s.emit? .quote 1).bind (·.stringLoop? false) = _
      rw [hemit, Option.bind_some, outcome_after]
      exact stringLoop?_eq rfl (unread?_behind hquote)
    · cases hr

theorem round?_of_next (hkinds : ∀ p ∈ s.lexicon.patterns, p.kind ≠ .endOfInput)
    (h : s.unread? = some text) (hr : s.lexicon.readNext? text = some r) :
    s.round? = some (s.outcome r) := by
  rw [Lexicon.readNext?_eq] at hr
  obtain ⟨pattern, hfind, hread⟩ := Option.bind_eq_some_iff.mp hr
  have hkind := hkinds pattern (List.mem_of_find?_eq_some hfind)
  rw [round?, h, Option.bind_eq_bind, Option.bind_some, hfind]
  exact take?_eq hkind h hread

theorem round?_of_none (h : s.unread? = some text) (hr : s.lexicon.readNext? text = none) :
    s.round? = some (s.fail (s.lexicon.unrecognised text) s.cursor) := by
  have hfind : (s.lexicon.patterns.find? fun pattern =>
      (pattern.matched? s.lexicon text).isSome) = none := by
    rw [List.find?_eq_none]
    intro pattern hpattern
    have hread := List.findSome?_eq_none_iff.mp hr pattern hpattern
    rw [Pattern.isSome_matched?, hread]
    exact Bool.false_ne_true
  rw [round?, h, Option.bind_eq_bind, Option.bind_some, hfind]
  rfl

end Rounds

section Runs

variable {s : Session} {text : List Char}

/-- Closes a session that reached the end of its source without a fault. -/
def close : Session × Option Diagnostic → Session × Option Diagnostic
  | (s, none) => ({ s with tokens := s.tokensClosedAt s.cursor }, none)
  | (s, some x) => (s, some x)

theorem atEnd_iff (h : s.unread? = some text) : s.atEnd = true ↔ text = [] := by
  have hsource := byteLength_source h
  rw [atEnd, decide_eq_true_iff]
  constructor
  · intro hle
    by_contra hne
    have hpos := byteLength_pos hne
    omega
  · rintro rfl
    rw [hsource]
    exact Nat.le_refl _

theorem run?_eq (h : s.unread? = some text) :
    s.run? = some (close (s.outcome (s.lexicon.read text))) := by
  unfold run?
  split
  · rename_i hend
    rw [(atEnd_iff h).mp hend, Lexicon.read_nil]
    simp [outcome, behind_nil, close]
  · rw [h]
    cases hfault : (s.lexicon.read text).fault? with
    | none =>
      simp [Lexicon.readAt_of_none _ _ hfault, outcome, hfault, close, behind, tokensClosedAt]
    | some d =>
      simp [Lexicon.readAt_of_some _ _ hfault, outcome, hfault, close, behind]

theorem loop?_of_end (h : s.atEnd = true) :
    s.loop? = some ({ s with tokens := s.tokensClosedAt s.cursor }, none) := by
  rw [loop?, if_pos h]

theorem loop?_of_next {s' : Session} (hend : ¬ s.atEnd = true)
    (h : s.round? = some (s', none)) : s.loop? = s'.loop? := by
  rw [loop?, if_neg hend]
  split <;> simp_all

theorem loop?_of_fault {s' : Session} {x : Diagnostic} (hend : ¬ s.atEnd = true)
    (h : s.round? = some (s', some x)) : s.loop? = some (s', some x) := by
  rw [loop?, if_neg hend]
  split <;> simp_all

/-- Reading round by round cuts between characters and reads what is read character by
character. -/
theorem loop?_eq {lexicon : Lexicon} (hkinds : ∀ p ∈ lexicon.patterns, p.kind ≠ .endOfInput)
    (hlexicon : s.lexicon = lexicon) (h : s.unread? = some text) :
    s.loop? = some (close (s.outcome (lexicon.read text))) := by
  fun_induction Lexicon.read lexicon text generalizing s with
  | case1 =>
    rw [loop?_of_end ((atEnd_iff h).mpr rfl)]
    simp [outcome, behind_nil, close]
  | case2 text hne hr =>
    subst hlexicon
    rw [loop?_of_fault (mt (atEnd_iff h).mp hne) (round?_of_none h hr), outcome_failed]
    rfl
  | case3 text hne r hr hfault ih =>
    subst hlexicon
    have hunread : (s.behind r.lexemes).unread? = some r.rest := by
      apply unread?_behind
      rw [h, (Lexicon.readNext?_covers hkinds hr).text]
    have hround := round?_of_next hkinds h hr
    rw [outcome, hfault] at hround
    rw [loop?_of_next (mt (atEnd_iff h).mp hne) hround, outcome_after]
    exact ih rfl hunread
  | case4 text hne r hr hfault =>
    subst hlexicon
    obtain ⟨d, hd⟩ := Option.ne_none_iff_exists'.mp hfault
    have hround := round?_of_next hkinds h hr
    rw [outcome, hd] at hround ⊢
    exact loop?_of_fault (mt (atEnd_iff h).mp hne) hround

/-- Reads on so many times, whatever stopped it the times before. -/
def runs? : Session → Nat → Option Session
  | s, 0 => some s
  | s, n + 1 => do
    let (s', _) ← s.run?
    s'.runs? n

/-- What holds of a session of a source between two runs: its cursor lies between characters. -/
structure Steady (s : Session) (scanner : Scanner) (source : String) : Prop where
  lexicon : s.lexicon = .withScanner scanner
  source : s.source = source
  text : ∃ text, s.unread? = some text

variable {scanner : Scanner} {source : String}

theorem steady_start (scanner : Scanner) (source file : String) :
    (start (.withScanner scanner) source file).Steady scanner source where
  lexicon := rfl
  source := rfl
  text := ⟨source.toList, by simp [unread?, start, splitAtByte?]⟩

theorem Steady.loop?_eq_run? (h : s.Steady scanner source) : s.loop? = s.run? := by
  obtain ⟨text, htext⟩ := h.text
  have hkinds : ∀ p ∈ s.lexicon.patterns, p.kind ≠ .endOfInput := by
    rw [h.lexicon]
    exact Lexicon.standard_kinds
  rw [run?_eq htext, loop?_eq hkinds rfl htext]

theorem Steady.run? (h : s.Steady scanner source) :
    ∃ s' x?, s.run? = some (s', x?) ∧ s'.Steady scanner source := by
  obtain ⟨text, htext⟩ := h.text
  have hcovers := withScanner_covers scanner text
  rw [← h.lexicon] at hcovers
  have hunread : (s.behind (s.lexicon.read text).lexemes).unread? =
      some (s.lexicon.read text).rest := by
    apply unread?_behind
    rw [htext, hcovers.text]
  refine ⟨_, _, run?_eq htext, ?_⟩
  cases hfault : (s.lexicon.read text).fault? with
  | none =>
    rw [outcome, hfault]
    exact ⟨h.lexicon, h.source, _, hunread⟩
  | some d =>
    rw [outcome, hfault]
    exact ⟨h.lexicon, h.source, _, hunread⟩

theorem Steady.runs? (h : s.Steady scanner source) (n : Nat) :
    ∃ s', s.runs? n = some s' ∧ s'.Steady scanner source := by
  induction n generalizing s with
  | zero => exact ⟨s, rfl, h⟩
  | succ n ih =>
    obtain ⟨s', x?, hrun, h'⟩ := h.run?
    obtain ⟨s'', hruns, h''⟩ := ih h'
    refine ⟨s'', ?_, h''⟩
    rw [Session.runs?, hrun]
    exact hruns

theorem Steady.cursor_le (h : s.Steady scanner source) :
    s.cursor ≤ byteLength source.toList := by
  obtain ⟨text, htext⟩ := h.text
  rw [← h.source, byteLength_source htext]
  exact Nat.le_add_right _ _

theorem Steady.isBoundary (h : s.Steady scanner source) :
    isBoundary source.toList s.cursor = true := by
  obtain ⟨text, htext⟩ := h.text
  obtain ⟨parts, hsplit, _⟩ := Option.map_eq_some_iff.mp htext
  rw [← h.source, HslTree.isBoundary, hsplit]
  rfl

end Runs

end Session

/-- Whatever a scanner answers, a session can be read on any number of times: all that is looked at
is cut out between characters, and each round moves the cursor. -/
theorem every_run_returns (scanner : Scanner) (source file : String) (n : Nat) :
    (∃ s, (Session.start (.withScanner scanner) source file).runs? n = some s ∧
      s.source = source ∧ s.cursor ≤ byteLength source.toList ∧
      isBoundary source.toList s.cursor = true ∧
      ∃ s' x?, s.loop? = some (s', x?) ∧ s.run? = some (s', x?)) ∧
    (∀ s s' : Session, s.round? = some (s', none) → s.cursor < s'.cursor) ∧
    ∀ (s s' : Session) (ae ae' : Bool), s.stringRound? ae = some (.again s' ae') →
      s.cursor < s'.cursor := by
  obtain ⟨s, hruns, hsteady⟩ := (Session.steady_start scanner source file).runs? n
  obtain ⟨s', x?, hrun, _⟩ := hsteady.run?
  refine ⟨⟨s, hruns, hsteady.source, hsteady.cursor_le, hsteady.isBoundary, s', x?, ?_, hrun⟩,
    ?_, ?_⟩
  · rw [hsteady.loop?_eq_run?, hrun]
  · intro t t' hround
    exact (Session.ahead_of_round? hround).further
  · intro t t' ae ae' hround
    exact (Session.ahead_of_again hround).further

end HslTree
