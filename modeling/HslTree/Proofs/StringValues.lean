import HslTree.Proofs.StringBodies
import HslTree.Proofs.StringNodes

/-! Strings have the value that the text between their quotes denotes. What it denotes is said by a
decoder that takes one character after the other. -/

namespace HslTree

/-- Where a decoder stands: outside of escapes, behind a backslash, behind the mark of a code, or
among digits, of which some are left or which end at a brace. -/
inductive Decoder
  | outside
  | escape
  | code
  | digits (left value : Nat)
  | braced (value : Nat)

inductive Denoted
  | char (c : Char)
  | code (number : Nat)
deriving DecidableEq

namespace Decoder

def step : Decoder → Char → Decoder × Option Denoted
  | outside, '\\' => (escape, none)
  | outside, c => (outside, some (.char c))
  | escape, 'n' => (outside, some (.char '\n'))
  | escape, 't' => (outside, some (.char '\t'))
  | escape, 'r' => (outside, some (.char '\r'))
  | escape, '0' => (outside, some (.char '\x00'))
  | escape, 'x' => (digits 2 0, none)
  | escape, 'u' => (code, none)
  | escape, c => (outside, some (.char c))
  | code, '{' => (braced 0, none)
  | code, c => (digits 3 (digitOf c), none)
  | digits (left + 2) value, c => (digits (left + 1) (value * 16 + digitOf c), none)
  | digits _ value, c => (outside, some (.code (value * 16 + digitOf c)))
  | braced value, '}' => (outside, some (.code value))
  | braced value, c => (braced (value * 16 + digitOf c), none)

def decode : Decoder → List Char → List Denoted
  | _, [] => []
  | d, c :: rest => (d.step c).2.toList ++ (d.step c).1.decode rest

end Decoder

def IsScalarValue (number : Nat) : Prop :=
  number ≤ 0x10FFFF ∧ ¬ (0xD800 ≤ number ∧ number ≤ 0xDFFF)

instance : DecidablePred IsScalarValue := fun _ => inferInstanceAs (Decidable (_ ∧ _))

def Denoted.char? : Denoted → Option Char
  | char c => some c
  | code number => if IsScalarValue number then some (Char.ofNat number) else none

/-- The text that is written between two quotes, if all of it is characters. -/
def decodeText? (text : List Char) : Option (List Char) :=
  (Decoder.outside.decode text).mapM Denoted.char?

section Codes

variable {digits rest : List Char}

theorem digitsValue?_hex (hne : digits ≠ []) (h : ∀ d ∈ digits, isHexDigit d = true) :
    digitsValue? 16 digits = some (numberFrom 16 0 digits) := by
  have hdigits : ∀ d ∈ digits, Radix.hexadecimal.isDigit d = true := h
  exact digitsValue?_eq hdigits hne

theorem scalar?_eq (number : Nat) : scalar? number = (Denoted.code number).char? := by
  have hvalid : number.isValidChar ↔ IsScalarValue number := by
    unfold Nat.isValidChar IsScalarValue
    omega
  simp only [scalar?, Denoted.char?, hvalid]

theorem decode_digits {n value : Nat} (h : digits.length = n + 1) :
    (Decoder.digits (n + 1) value).decode (digits ++ rest) =
      .code (numberFrom 16 value digits) :: Decoder.outside.decode rest := by
  induction n generalizing digits value with
  | zero =>
    obtain ⟨d, rfl⟩ := List.length_eq_one_iff.mp h
    rw [numberFrom_cons, numberFrom_nil]
    rfl
  | succ n ih =>
    obtain ⟨d, digits, rfl⟩ := List.exists_cons_of_length_eq_add_one h
    rw [numberFrom_cons]
    exact ih (Nat.succ.inj h)

theorem decode_braced (h : ∀ d ∈ digits, isHexDigit d = true) (value : Nat) :
    (Decoder.braced value).decode (digits ++ '}' :: rest) =
      .code (numberFrom 16 value digits) :: Decoder.outside.decode rest := by
  induction digits generalizing value with
  | nil =>
    rw [numberFrom_nil]
    rfl
  | cons d digits ih =>
    have hd : d ≠ '}' := by
      rintro rfl
      cases h _ List.mem_cons_self
    have hstep : (Decoder.braced value).step d = (.braced (value * 16 + digitOf d), none) := by
      rw [Decoder.step]
      exact hd
    rw [List.cons_append, Decoder.decode, hstep, numberFrom_cons]
    exact ih (fun e he => h e (by simp [he])) _

theorem ne_brace_of_isHexDigit {d : Char} (h : isHexDigit d = true) :
    d ≠ '{' ∧ d ≠ '}' := by
  constructor
  · rintro rfl
    cases h
  · rintro rfl
    cases h

theorem trimBraces_digits {front back : List Char} (hfront : ∀ c ∈ front, c = '{')
    (hback : ∀ c ∈ back, c = '}') (h : ∀ d ∈ digits, isHexDigit d = true) :
    trimBraces (front ++ (digits ++ back)) = digits := by
  have hstop : ∀ c ∈ (digits ++ back).head?, decide (c = '{') = false := by
    intro c hc
    rcases List.mem_append.mp (List.mem_of_mem_head? hc) with hc | hc
    · simp [(ne_brace_of_isHexDigit (h c hc)).1]
    · rw [hback c hc]
      rfl
  have hstop' : ∀ c ∈ digits.reverse.head?, decide (c = '}') = false := by
    intro c hc
    simp [(ne_brace_of_isHexDigit (h c (List.mem_reverse.mp (List.mem_of_mem_head? hc)))).2]
  have hopened : (front ++ (digits ++ back)).dropWhile (· = '{') = digits ++ back :=
    (takeWhile_append_stop (by simpa using hfront) hstop).2
  have hclosed : (back.reverse ++ digits.reverse).dropWhile (· = '}') = digits.reverse :=
    (takeWhile_append_stop (by simpa using hback) hstop').2
  rw [trimBraces, hopened, List.reverse_append, hclosed, List.reverse_reverse]

end Codes

namespace StringUnit

def value? : StringUnit → Option Char
  | plain c _ => some c
  | escape body _ => escapeValue? ('\\' :: body)

theorem step_single {c : Char} (hx : c ≠ 'x') (hu : c ≠ 'u') :
    ∃ d, escapeValue? ['\\', c] = some d ∧ Decoder.escape.step c = (.outside, some (.char d)) := by
  by_cases hn : c = 'n'
  · exact ⟨'\n', by rw [hn]; rfl, by rw [hn]; rfl⟩
  by_cases ht : c = 't'
  · exact ⟨'\t', by rw [ht]; rfl, by rw [ht]; rfl⟩
  by_cases hr : c = 'r'
  · exact ⟨'\r', by rw [hr]; rfl, by rw [hr]; rfl⟩
  by_cases h0 : c = '0'
  · exact ⟨'\x00', by rw [h0]; rfl, by rw [h0]; rfl⟩
  exact ⟨c, by simp [escapeValue?], by simp [Decoder.step]⟩

/-- A unit is decoded on its own, and denotes the character it stands for. -/
theorem exists_denoted (unit : StringUnit) : ∃ x : Denoted, unit.value? = x.char? ∧
    ∀ rest, Decoder.outside.decode (unit.text ++ rest) = x :: Decoder.outside.decode rest := by
  cases unit with
  | plain c hc =>
    refine ⟨.char c, rfl, fun rest => ?_⟩
    have hslash : c ≠ '\\' := by
      rintro rfl
      cases hc
    have hstep : Decoder.outside.step c = (.outside, some (.char c)) := by
      rw [Decoder.step]
      exact hslash
    rw [text, List.singleton_append, Decoder.decode, hstep]
    rfl
  | escape body hbody =>
    cases hbody with
    | @byte a b ha hb =>
      have hdigits : ∀ d ∈ [a, b], isHexDigit d = true := by simp [ha, hb]
      refine ⟨.code (numberFrom 16 0 [a, b]), ?_, fun rest => decode_digits rfl⟩
      change (digitsValue? 16 [a, b]).bind scalar? = _
      rw [digitsValue?_hex (by simp) hdigits, Option.bind_some, scalar?_eq]
    | @code a b c d ha hb hc hd =>
      have hdigits : ∀ e ∈ [a, b, c, d], isHexDigit e = true := by simp [ha, hb, hc, hd]
      have htrim : trimBraces ([] ++ ([a, b, c, d] ++ [])) = [a, b, c, d] :=
        trimBraces_digits (by simp) (by simp) hdigits
      refine ⟨.code (numberFrom 16 0 [a, b, c, d]), ?_, fun rest => ?_⟩
      · change (digitsValue? 16 (trimBraces ([] ++ ([a, b, c, d] ++ [])))).bind scalar? = _
        rw [htrim, digitsValue?_hex (by simp) hdigits, Option.bind_some, scalar?_eq]
      · have hstep : Decoder.code.step a = (.digits 3 (digitOf a), none) := by
          rw [Decoder.step]
          exact (ne_brace_of_isHexDigit ha).1
        change Decoder.code.decode (a :: ([b, c, d] ++ rest)) = _
        have hnumber : numberFrom 16 0 [a, b, c, d] = numberFrom 16 (digitOf a) [b, c, d] := by
          rw [numberFrom_cons, Nat.zero_mul, Nat.zero_add]
        rw [Decoder.decode, hstep, hnumber]
        exact decode_digits rfl
    | @braced digits hne hdigits =>
      have htrim : trimBraces (['{'] ++ (digits ++ ['}'])) = digits :=
        trimBraces_digits (by simp) (by simp) hdigits
      refine ⟨.code (numberFrom 16 0 digits), ?_, fun rest => ?_⟩
      · change (digitsValue? 16 (trimBraces (['{'] ++ (digits ++ ['}'])))).bind scalar? = _
        rw [htrim, digitsValue?_hex hne hdigits, Option.bind_some, scalar?_eq]
      · change (Decoder.braced 0).decode (digits ++ ['}'] ++ rest) = _
        rw [List.append_assoc]
        exact decode_braced hdigits 0
    | @single c hx hu =>
      obtain ⟨d, hvalue, hstep⟩ := step_single hx hu
      refine ⟨.char d, hvalue, fun rest => ?_⟩
      change Decoder.escape.decode (c :: rest) = _
      rw [Decoder.decode, hstep]
      rfl

theorem decodeText?_units (units : List StringUnit) :
    decodeText? (textOf units) = units.mapM value? := by
  induction units with
  | nil => rfl
  | cons unit units ih =>
    obtain ⟨x, hvalue, hdecode⟩ := unit.exists_denoted
    rw [decodeText?] at ih ⊢
    rw [textOf_cons, hdecode, List.mapM_cons, List.mapM_cons, hvalue, ih]

end StringUnit

section Values

/-- What a lexeme of a string adds to its value. -/
def Lexeme.value? (l : Lexeme) : Option (List Char) :=
  match l.kind with
  | .content => some l.text
  | .escape => (escapeValue? l.text).map ([·])
  | _ => some []

def valueOf? : List Lexeme → Option (List Char)
  | [] => some []
  | l :: ls => l.value?.bind fun cs => (valueOf? ls).map (cs ++ ·)

theorem contentValue?_eq (ts : List Token) : contentValue? ts = valueOf? (ts.map Token.lexeme) := by
  induction ts with
  | nil => rfl
  | cons t ts ih =>
    cases hkind : t.kind with
    | escape =>
      cases hc : escapeValue? t.value.toList <;>
        simp [contentValue?, valueOf?, Lexeme.value?, Token.lexeme, hkind, ih, hc]
    | _ => simp [contentValue?, valueOf?, Lexeme.value?, Token.lexeme, hkind, ih]

theorem valueOf?_quoted (ls : List Lexeme) :
    valueOf? (⟨.quote, ['"']⟩ :: (ls ++ [⟨.quote, ['"']⟩])) = valueOf? ls := by
  have hlast : valueOf? (ls ++ [⟨.quote, ['"']⟩]) = valueOf? ls := by
    induction ls with
    | nil => rfl
    | cons l ls ih => rw [List.cons_append, valueOf?, valueOf?, ih]
  simp [valueOf?, Lexeme.value?, hlast]

theorem valueOf?_separator (apart : Bool) (ls : List Lexeme) :
    valueOf? (StringUnit.separator apart ++ ls) = valueOf? ls := by
  cases apart <;> simp [StringUnit.separator, valueOf?, Lexeme.value?]

theorem StringUnit.mapM_value?_run {run : List StringUnit}
    (h : ∀ u ∈ run, u.isCharacter = true) : run.mapM value? = some (textOf run) := by
  induction run with
  | nil => rfl
  | cons u run ih =>
    cases u with
    | escape body hbody => exact absurd (h _ List.mem_cons_self) Bool.false_ne_true
    | plain c hc =>
      rw [List.mapM_cons, ih fun v hv => h v (by simp [hv])]
      rfl

theorem valueOf?_lexemes (units : List StringUnit) :
    valueOf? (StringUnit.lexemes units) = units.mapM StringUnit.value? := by
  induction units using StringUnit.stretch_induction with
  | nil => rfl
  | escape body hbody rest ih =>
    rw [StringUnit.lexemes_escape, StringUnit.merge_pieces_true, valueOf?, valueOf?_separator, ih,
      List.mapM_cons]
    cases hc : escapeValue? ('\\' :: body) with
    | none => simp [Lexeme.value?, StringUnit.value?, hc]
    | some c => simp [Lexeme.value?, StringUnit.value?, hc, Option.map_eq_bind]
  | run run rest hne hrun hrest ih =>
    rw [StringUnit.lexemes_run hne hrun hrest, valueOf?, ih, List.mapM_append,
      StringUnit.mapM_value?_run hrun]
    simp [Lexeme.value?, Option.map_eq_bind]

theorem valueOf?_stringLexemes (units : List StringUnit) :
    valueOf? (stringLexemes units) = units.mapM StringUnit.value? := by
  rw [stringLexemes, valueOf?_quoted, valueOf?_lexemes]

theorem Tree.string_of_lexemes {n : Tree} {units : List StringUnit}
    (hkind : n.kind? = some .string) (h : n.tokens.map Token.lexeme = stringLexemes units) :
    n.text.toList = '"' :: (StringUnit.textOf units ++ ['"']) ∧
      n.stringValue? = (units.mapM StringUnit.value?).map String.ofList := by
  constructor
  · rw [Tree.text, toList_join_values, h, textOf_stringLexemes]
  · rw [Tree.stringValue?, if_pos hkind, contentValue?_eq, h, valueOf?_stringLexemes]

theorem mapM_eq_none_iff {α β : Type} {f : α → Option β} {xs : List α} :
    xs.mapM f = none ↔ ∃ x ∈ xs, f x = none := by
  induction xs with
  | nil => simp
  | cons x xs ih =>
    cases hx : f x with
    | none => simp [hx]
    | some y =>
      have hrest : (x :: xs).mapM f = (xs.mapM f).map (y :: ·) := by
        rw [List.mapM_cons, hx, Option.map_eq_bind]
        rfl
      rw [hrest, Option.map_eq_none_iff, ih]
      simp [hx]

theorem Denoted.char?_eq_none_iff {x : Denoted} : x.char? = none ↔
    ∃ number, x = .code number ∧ (0xD800 ≤ number ∧ number ≤ 0xDFFF ∨ 0x10FFFF < number) := by
  cases x with
  | char c => simp [char?]
  | code number =>
    constructor
    · intro h
      refine ⟨number, rfl, ?_⟩
      by_contra hnumber
      have hscalar : IsScalarValue number := by
        unfold IsScalarValue
        omega
      rw [char?, if_pos hscalar] at h
      cases h
    · rintro ⟨_, ⟨⟩, hnumber⟩
      refine if_neg fun hscalar => ?_
      unfold IsScalarValue at hscalar
      omega

end Values

/-- The value of a string is what its text denotes between the quotes, and there is none if an
escape in the text denotes a surrogate or a number beyond the last code point. -/
theorem stringValue?_eq_decoded {source : String} {label? : Option String} {tree n : Tree}
    (h : Lexicon.standard.readTree source label? = .ok tree) (hn : n ∈ tree.nodes)
    (hkind : n.kind? = some .string) :
    ∃ inside, n.text.toList = '"' :: (inside ++ ['"']) ∧
      n.stringValue? = (decodeText? inside).map String.ofList ∧
      (n.stringValue? = none ↔ ∃ number, .code number ∈ Decoder.outside.decode inside ∧
        (0xD800 ≤ number ∧ number ≤ 0xDFFF ∨ 0x10FFFF < number)) := by
  obtain ⟨units, hunits⟩ := exists_units_of_mem_nodes h hn hkind
  obtain ⟨htext, hvalue⟩ := Tree.string_of_lexemes hkind hunits
  rw [← StringUnit.decodeText?_units] at hvalue
  refine ⟨StringUnit.textOf units, htext, hvalue, ?_⟩
  rw [hvalue, Option.map_eq_none_iff, decodeText?, mapM_eq_none_iff]
  simp only [Denoted.char?_eq_none_iff]
  constructor
  · rintro ⟨_, hmem, number, rfl, hnumber⟩
    exact ⟨number, hmem, hnumber⟩
  · rintro ⟨number, hmem, hnumber⟩
    exact ⟨_, hmem, number, rfl, hnumber⟩

theorem escaped_string_decoded :
    let source := "A long time ago in a f far, far away...\nExecute order g " ++
      "\"é\\x41\\u00e9\\u\x7b1F600\x7d\\n\\q\" Order executed\nMay the force be with you."
    ∃ tree n, Lexicon.standard.readTree source none = .ok tree ∧ n ∈ tree.nodes ∧
      n.kind? = some .string ∧ n.text = "\"é\\x41\\u00e9\\u\x7b1F600\x7d\\n\\q\"" ∧
      n.stringValue? = some "éAé😀\nq" := by
  intro source
  have hfound : ((Lexicon.standard.readTree source none).toOption.bind fun tree =>
      tree.nodes.find? fun n => n.kind? = some .string ∧
        n.text = "\"é\\x41\\u00e9\\u\x7b1F600\x7d\\n\\q\"").isSome = true := by
    decide +kernel
  cases htree : Lexicon.standard.readTree source none with
  | error d =>
    rw [htree] at hfound
    cases hfound
  | ok tree =>
    rw [htree] at hfound
    obtain ⟨n, hn⟩ := Option.isSome_iff_exists.mp hfound
    have hmem : n ∈ tree.nodes := List.mem_of_find?_eq_some hn
    have hchosen := List.find?_some (show tree.nodes.find? _ = some n from hn)
    obtain ⟨hkind, htext⟩ := of_decide_eq_true hchosen
    obtain ⟨inside, hinside, hvalue, _⟩ := stringValue?_eq_decoded htree hmem hkind
    have hquoted : '"' :: (inside ++ ['"']) =
        '"' :: ("é\\x41\\u00e9\\u\x7b1F600\x7d\\n\\q".toList ++ ['"']) := by
      rw [← hinside, htext]
      rfl
    have hdecoded : (decodeText? "é\\x41\\u00e9\\u\x7b1F600\x7d\\n\\q".toList).map
        String.ofList = some "éAé😀\nq" := by decide +kernel
    rw [List.append_cancel_right (List.cons.inj hquoted).2, hdecoded] at hvalue
    exact ⟨tree, n, rfl, hmem, hkind, htext, hvalue⟩

end HslTree
