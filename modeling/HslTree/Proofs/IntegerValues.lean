import HslTree.Proofs.FileTrees
import HslTree.Proofs.Lexed
import HslTree.Tree.Value

/-! Integers have the value that their text denotes, if it is within the limits. What a text denotes
is said by the places of its digits: each stands for itself times a power of the base. -/

namespace HslTree

open scoped Computability

def Radix.announced (number : List Char) : Radix :=
  ([hexadecimal, binary, octal].find? (·.marker.isPrefixOf number)).getD decimal

/-- The digits of a number: what stands behind its marker, without the underscores. -/
def digitsOf (number : List Char) : List Char :=
  (number.drop (Radix.announced number).marker.length).filter (· ≠ '_')

def digitOf (c : Char) : Nat :=
  if c.toNat ≤ '9'.toNat then c.toNat - '0'.toNat
  else if c.toNat ≤ 'F'.toNat then c.toNat - 'A'.toNat + 10
  else c.toNat - 'a'.toNat + 10

/-- The sum of the digits of a number, each times the power of the base that its place has. -/
def numberOf (number : List Char) : Nat :=
  Nat.ofDigits (Radix.announced number).base ((digitsOf number).map digitOf).reverse

def unsigned : List Char → List Char
  | '-' :: number => number
  | number => number

def integerOf (text : List Char) : Int :=
  if text.head? = some '-' then -(numberOf (unsigned text) : Int) else numberOf (unsigned text)

section Digits

theorem Radix.announced_of_isNumeral {radix : Radix} {u : List Char}
    (h : radix.isNumeral u = true) : announced u = radix := by
  obtain ⟨c, body, rfl, _, hbody⟩ := isNumeral_iff.mp h
  by_cases hradix : radix = .decimal
  · subst hradix
    have hother (other : Radix) (hother : other ≠ .decimal) :
        other.marker.isPrefixOf (decimal.marker ++ c :: body) = false := by
      have hmarker : other.marker.isPrefixOf (c :: (body ++ [])) = false :=
        marker_isPrefixOf_decimal hother hbody (by simp)
      rwa [List.append_nil] at hmarker
    simp [announced, hother]
  · have hself : radix.marker.isPrefixOf (radix.marker ++ c :: body) = true :=
      List.isPrefixOf_iff_prefix.mpr (List.prefix_append _ _)
    have hother (other : Radix) (hne : other ≠ radix) (hother : other ≠ .decimal) :=
      marker_isPrefixOf_marker hne hother hradix (c :: body)
    cases radix with
    | decimal => exact absurd rfl hradix
    | hexadecimal => simp [announced, hself]
    | binary => simp [announced, hself, hother]
    | octal => simp [announced, hself, hother]

theorem Radix.isDigit_of_mem_digitsOf {radix : Radix} {u : List Char}
    (h : radix.isNumeral u = true) {d : Char} (hd : d ∈ digitsOf u) : radix.isDigit d = true := by
  rw [digitsOf, announced_of_isNumeral h] at hd
  obtain ⟨c, body, rfl, hc, hbody⟩ := isNumeral_iff.mp h
  rw [List.drop_left, List.mem_filter, decide_eq_true_eq] at hd
  have hd' : radix.isBody d = true := by
    rcases List.mem_cons.mp hd.1 with rfl | hmem
    · exact isBody_of_startsBody hc
    · exact hbody d hmem
  simpa [isBody, hd.2] using hd'

theorem Radix.digitValue?_of_isDigit {radix : Radix} {c : Char} (h : radix.isDigit c = true) :
    digitValue? radix.base c = some (digitOf c) := by
  have hcodes : ∀ n < 128, radix.isDigit (Char.ofNat n) = true →
      digitValue? radix.base (Char.ofNat n) = some (digitOf (Char.ofNat n)) := by
    cases radix <;> decide +kernel
  have hword : isAsciiWordChar c = true :=
    isAsciiWordChar_of_isBody (Bool.or_eq_true_iff.mpr (.inl h))
  have hc := hcodes c.toNat (toNat_lt_of_isAsciiWordChar hword)
  rw [Char.ofNat_toNat] at hc
  exact hc h

/-- What digits denote behind others that denote `value`. -/
def numberFrom (base value : Nat) (digits : List Char) : Nat :=
  value * base ^ digits.length + Nat.ofDigits base (digits.map digitOf).reverse

theorem numberFrom_nil (base value : Nat) : numberFrom base value [] = value := by
  simp [numberFrom]

theorem numberFrom_cons (base value : Nat) (c : Char) (cs : List Char) :
    numberFrom base value (c :: cs) = numberFrom base (value * base + digitOf c) cs := by
  rw [numberFrom, numberFrom, List.map_cons, List.reverse_cons, Nat.ofDigits_append,
    Nat.ofDigits_singleton, List.length_reverse, List.length_map, List.length_cons, pow_succ]
  ring

theorem numberFrom_zero (base : Nat) (cs : List Char) :
    numberFrom base 0 cs = Nat.ofDigits base (cs.map digitOf).reverse := by
  rw [numberFrom, Nat.zero_mul, Nat.zero_add]

/-- Digits taken in from the left make up their places. -/
theorem digitsValueFrom?_eq {base : Nat} {cs : List Char}
    (h : ∀ c ∈ cs, digitValue? base c = some (digitOf c)) (value : Nat) :
    digitsValueFrom? base value cs = some (numberFrom base value cs) := by
  induction cs generalizing value with
  | nil => rw [digitsValueFrom?, numberFrom_nil]
  | cons c cs ih =>
    rw [digitsValueFrom?, h c (by simp), Option.bind_some, ih fun d hd => h d (by simp [hd]),
      numberFrom_cons]

theorem digitsValue?_eq {radix : Radix} {cs : List Char} (h : ∀ c ∈ cs, radix.isDigit c = true)
    (hne : cs ≠ []) : digitsValue? radix.base cs = some (numberFrom radix.base 0 cs) := by
  have hvalues := digitsValueFrom?_eq (fun c hc => Radix.digitValue?_of_isDigit (h c hc)) 0
  unfold digitsValue?
  split
  · exact absurd rfl hne
  · -- A plus sign is no digit.
    have hplus := h '+' (by simp)
    cases radix <;> cases hplus
  · exact hvalues

theorem splitRadix_eq (u : List Char) :
    splitRadix u = (Radix.announced u, u.drop (Radix.announced u).marker.length) := by
  unfold splitRadix
  split
  · simp [Radix.announced, Radix.marker]
  · simp [Radix.announced, Radix.marker]
  · simp [Radix.announced, Radix.marker]
  · rename_i hx hb ho
    have hnone (radix : Radix) (hradix : radix ≠ .decimal) : radix.marker.isPrefixOf u = false := by
      by_contra hmarker
      obtain ⟨body, rfl⟩ := List.isPrefixOf_iff_prefix.mp (Bool.not_eq_false _ ▸ hmarker)
      cases radix with
      | decimal => exact hradix rfl
      | hexadecimal => exact hx body rfl
      | binary => exact hb body rfl
      | octal => exact ho body rfl
    have hdecimal : Radix.announced u = .decimal := by simp [Radix.announced, hnone]
    rw [hdecimal]
    rfl

theorem magnitude?_eq {u : List Char} (h : isNumeral u = true) :
    magnitude? u =
      if digitsOf u ≠ [] ∧ numberOf u < 2 ^ 128 then some (numberOf u) else none := by
  obtain ⟨radix, _, hradix⟩ := List.any_eq_true.mp h
  have hdigits : ∀ c ∈ digitsOf u, radix.isDigit c = true :=
    fun c hc => Radix.isDigit_of_mem_digitsOf hradix hc
  have hvalue : magnitude? u = (digitsValue? radix.base (digitsOf u)).filter (· < 2 ^ 128) := by
    rw [magnitude?, splitRadix_eq, ← Radix.announced_of_isNumeral hradix]
    rfl
  by_cases hne : digitsOf u = []
  · simp [hvalue, hne, digitsValue?]
  · rw [hvalue, digitsValue?_eq hdigits hne, numberFrom_zero, numberOf,
      Radix.announced_of_isNumeral hradix, Option.filter_some]
    simp [hne]

theorem signedWord?_eq (negative : Bool) (magnitude : Nat) :
    signedWord? negative magnitude =
      let value : Int := if negative then -(magnitude : Int) else magnitude
      if -2 ^ 127 ≤ value ∧ value < 2 ^ 127 then some value else none := by
  have hlimit : integerLimit = 2 ^ 127 := rfl
  unfold signedWord?
  rw [hlimit]
  cases negative with
  | false =>
    have hrange : magnitude < 2 ^ 127 ↔
        -2 ^ 127 ≤ (magnitude : Int) ∧ (magnitude : Int) < 2 ^ 127 := by omega
    simp only [Bool.false_eq_true, if_false, hrange]
  | true =>
    have hrange : magnitude ≤ 2 ^ 127 ↔
        -2 ^ 127 ≤ -(magnitude : Int) ∧ -(magnitude : Int) < 2 ^ 127 := by omega
    simp only [if_true, hrange]

theorem signedWord?_of_magnitude? {u : List Char} (h : isNumeral u = true) (negative : Bool) :
    (magnitude? u).bind (signedWord? negative) =
      let value : Int := if negative then -(numberOf u : Int) else numberOf u
      if digitsOf u ≠ [] ∧ -2 ^ 127 ≤ value ∧ value < 2 ^ 127 then some value else none := by
  rw [magnitude?_eq h]
  by_cases hdigits : digitsOf u = []
  · simp [hdigits]
  · by_cases hsize : numberOf u < 2 ^ 128
    · rw [if_pos ⟨hdigits, hsize⟩, Option.bind_some, signedWord?_eq]
      simp [hdigits]
    · have hrange : ¬ (-2 ^ 127 ≤ (if negative then -(numberOf u : Int) else numberOf u) ∧
          (if negative then -(numberOf u : Int) else numberOf u) < 2 ^ 127) := by
        cases negative <;> simp only [Bool.false_eq_true, if_false, if_true] <;> omega
      rw [if_neg (fun hboth => hsize hboth.2), Option.bind_none]
      exact (if_neg fun hboth => hrange hboth.2).symm

theorem isNumeral_head {u : List Char} (h : isNumeral u = true) : u.head? ≠ some '-' := by
  obtain ⟨radix, _, hradix⟩ := List.any_eq_true.mp h
  obtain ⟨c, body, rfl, hc, _⟩ := Radix.isNumeral_iff.mp hradix
  cases radix with
  | binary | octal | hexadecimal => simp [Radix.marker]
  | decimal =>
    intro hhead
    obtain rfl : c = '-' := by simpa [Radix.marker] using hhead
    cases hc

theorem unsigned_of_head {u : List Char} (h : u.head? ≠ some '-') : unsigned u = u := by
  unfold unsigned
  split
  · simp at h
  · rfl

end Digits

section Nodes

variable {file : String} {n : Tree}

theorem Tree.exists_leaf {c : Tree} {k : Kind} (h : c.symbol = .token k) :
    ∃ t, c = .leaf t ∧ t.kind = k := by
  cases c with
  | leaf t => exact ⟨t, rfl, Symbol.token.inj h⟩
  | node => cases h

theorem Derivation.integer_tokens (h : Derivation file n) (hkind : n.kind? = some .integer) :
    ∃ t, t.kind = .number ∧ (n.tokens = [t] ∨ ∃ m, m.kind = .minus ∧ n.tokens = [m, t]) := by
  cases h with
  | leaf => cases hkind
  | @node kind children hchildren hsymbols hextras =>
    obtain rfl : kind = .integer := Option.some.inj hkind
    have hplain : symbols children = children.map Tree.symbol := by
      rw [symbols, List.filter_eq_self.mpr]
      intro c hc
      simp [hextras.tight rfl c hc]
    obtain ⟨sign, hsign, number, rfl, hsplit⟩ := Language.mem_mul.mp hsymbols
    rw [hplain] at hsplit
    rcases (Language.mem_add ..).mp hsign with rfl | rfl
    · obtain ⟨c, rfl, hc⟩ := List.map_eq_singleton_iff.mp hsplit.symm
      obtain ⟨t, rfl, ht⟩ := Tree.exists_leaf hc
      exact ⟨t, ht, .inl rfl⟩
    · obtain ⟨d, rest, rfl, hd, hrest⟩ := List.map_eq_cons_iff.mp hsplit.symm
      obtain ⟨c, rfl, hc⟩ := List.map_eq_singleton_iff.mp hrest
      obtain ⟨m, rfl, hm⟩ := Tree.exists_leaf hd
      obtain ⟨t, rfl, ht⟩ := Tree.exists_leaf hc
      exact ⟨t, ht, .inr ⟨m, hm, rfl⟩⟩

theorem Lexed.exists_forms {ls : List Lexeme} (h : Lexed ls) {l : Lexeme} (hl : l ∈ ls) :
    ∃ pattern ∈ Lexicon.standard.patterns, ∃ ms v, pattern.Forms ms v ∧ l ∈ ms := by
  induction h with
  | nil => cases hl
  | append hmem hforms _ _ ih =>
    rcases List.mem_append.mp hl with hl | hl
    · exact ⟨_, hmem, _, _, hforms, hl⟩
    · exact ih hl

structure Lexeme.FitsInteger (l : Lexeme) : Prop where
  number : l.kind = .number → isNumeral l.text = true
  minus : l.kind = .minus → l.text = ['-']

theorem Lexeme.fitsInteger_of_kind {l : Lexeme} (hnumber : l.kind ≠ .number)
    (hminus : l.kind ≠ .minus) : l.FitsInteger where
  number hkind := absurd hkind hnumber
  minus hkind := absurd hkind hminus

theorem Lexed.fitsInteger {ls : List Lexeme} (h : Lexed ls) {l : Lexeme} (hl : l ∈ ls) :
    l.FitsInteger := by
  obtain ⟨pattern, hmem, ms, v, hforms, hl⟩ := h.exists_forms hl
  cases hforms with
  | number hu =>
    obtain rfl := List.mem_singleton.mp hl
    exact ⟨fun _ => hu, by simp⟩
  | minus hd =>
    obtain rfl := List.mem_singleton.mp hl
    exact ⟨by simp, fun _ => rfl⟩
  | blank | comment | identifier | char =>
    obtain rfl := List.mem_singleton.mp hl
    exact Lexeme.fitsInteger_of_kind (by simp) (by simp)
  | @phrase p =>
    obtain rfl := List.mem_singleton.mp hl
    have hkinds : ∀ p ∈ Phrase.all, p.kind ≠ .number ∧ p.kind ≠ .minus := by decide
    have hp := hkinds p ((Lexicon.withScanner_orderly longestRun).phrases p hmem)
    exact Lexeme.fitsInteger_of_kind hp.1 hp.2
  | string units =>
    simp only [stringLexemes, List.mem_cons, List.mem_append, List.not_mem_nil, or_false] at hl
    rcases hl with rfl | hl | rfl
    · exact Lexeme.fitsInteger_of_kind (by simp) (by simp)
    · rcases StringUnit.kind_of_mem_lexemes l hl with hkind | hkind
      · exact Lexeme.fitsInteger_of_kind (by simp [hkind]) (by simp [hkind])
      · exact Lexeme.fitsInteger_of_kind (by simp [hkind]) (by simp [hkind])
    · exact Lexeme.fitsInteger_of_kind (by simp) (by simp)

theorem Derivation.exists_number (h : Derivation file n) (hkind : n.kind? = some .integer)
    {a : Nat} {ls : List Lexeme} (htokens : n.tokens = placeAll file a ls)
    (hls : ∀ l ∈ ls, l.FitsInteger) :
    ∃ negative u, isNumeral u = true ∧
      n.text.toList = (if negative = true then ['-'] else []) ++ u ∧
      n.integerValue? = (magnitude? u).bind (signedWord? negative) := by
  have htext : n.text.toList = textOf ls := by rw [text_of_tokens htokens, String.toList_ofList]
  have hplaced (l : Lexeme) (b : Nat) : (l.place file b).value.toList = l.text :=
    String.toList_ofList
  obtain ⟨t, ht, hone | ⟨m, hm, htwo⟩⟩ := h.integer_tokens hkind
  · obtain ⟨l, rest, rfl, rfl, hrest⟩ := placeAll_eq_cons (htokens.symm.trans hone)
    obtain rfl := eq_nil_of_placeAll hrest
    have hl : l.kind = .number := ht
    refine ⟨false, l.text, (hls l (by simp)).number hl, by simpa using htext, ?_⟩
    simp [Tree.integerValue?, hkind, hone, ht, hplaced]
  · obtain ⟨k, rest, rfl, rfl, hrest⟩ := placeAll_eq_cons (htokens.symm.trans htwo)
    obtain ⟨l, rest, rfl, rfl, hnil⟩ := placeAll_eq_cons hrest
    obtain rfl := eq_nil_of_placeAll hnil
    have hk : k.text = ['-'] := (hls k (by simp)).minus hm
    refine ⟨true, l.text, (hls l (by simp)).number ht, by simpa [hk] using htext, ?_⟩
    simp [Tree.integerValue?, hkind, htwo, hm, ht, hplaced]

end Nodes

/-- The value of an integer is the one its text denotes, if there is a digit in the text and the
limits of 128 bits hold. -/
theorem integerValue?_eq_denoted {source : String} {label? : Option String} {tree n : Tree}
    (h : Lexicon.standard.readTree source label? = .ok tree) (hn : n ∈ tree.nodes)
    (hkind : n.kind? = some .integer) :
    isNumeral (unsigned n.text.toList) = true ∧
      n.integerValue? =
        if digitsOf (unsigned n.text.toList) ≠ [] ∧ -2 ^ 127 ≤ integerOf n.text.toList ∧
            integerOf n.text.toList < 2 ^ 127 then some (integerOf n.text.toList)
        else none := by
  obtain ⟨ls, hread, hderives⟩ := Lexicon.readTree_eq_ok_iff.mp h
  have hlexed := (Lexicon.read_eq_iff.mp hread).1
  obtain ⟨before, mid, after, rfl, htokens, hderivation, _⟩ :=
    hderives.derivation.mem_nodes hderives.leaves hn
  obtain ⟨negative, u, hu, htext, hvalue⟩ := hderivation.exists_number hkind htokens
    fun l hl => hlexed.fitsInteger (by simp [hl])
  rw [hvalue, signedWord?_of_magnitude? hu, htext]
  cases negative with
  | true => exact ⟨hu, rfl⟩
  | false =>
    have hhead := isNumeral_head hu
    have hunsigned := unsigned_of_head hhead
    refine ⟨by simpa [hunsigned] using hu, ?_⟩
    simp [integerOf, hunsigned, hhead]

/-- The least integer, which has no positive counterpart. -/
theorem least_integer_denoted :
    let source := "A long time ago in a f far, far away...\nExecute order g 0x__ " ++
      "-0x0_8000_0000_0000_0000_0000_0000_0000_0000 Order executed\nMay the force be with you."
    ∃ tree n, Lexicon.standard.readTree source none = .ok tree ∧ n ∈ tree.nodes ∧
      n.kind? = some .integer ∧ n.text = "-0x0_8000_0000_0000_0000_0000_0000_0000_0000" ∧
      n.integerValue? = some (-2 ^ 127) := by
  intro source
  have hfound : ((Lexicon.standard.readTree source none).toOption.bind fun tree =>
      tree.nodes.find? fun n => n.kind? = some .integer ∧
        n.text = "-0x0_8000_0000_0000_0000_0000_0000_0000_0000").isSome = true := by
    decide +kernel
  cases htree : Lexicon.standard.readTree source none with
  | error d =>
    rw [htree] at hfound
    cases hfound
  | ok tree =>
    rw [htree] at hfound
    obtain ⟨n, hn⟩ := Option.isSome_iff_exists.mp hfound
    have hmem : n ∈ tree.nodes := List.mem_of_find?_eq_some hn
    have hchosen := List.find?_some (show tree.nodes.find? _ = some n from hn)
    obtain ⟨hkind, htext⟩ := of_decide_eq_true hchosen
    have hvalue := (integerValue?_eq_denoted htree hmem hkind).2
    have hdenoted : integerOf n.text.toList = -2 ^ 127 := by
      rw [htext]
      decide +kernel
    have hdigits : digitsOf (unsigned n.text.toList) ≠ [] := by
      rw [htext]
      decide +kernel
    rw [hdenoted, if_pos ⟨hdigits, by decide⟩] at hvalue
    exact ⟨tree, n, rfl, hmem, hkind, htext, hvalue⟩

end HslTree
