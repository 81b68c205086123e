import HslTree.Proofs.Reformatting
import HslTree.Proofs.StringNodes
import HslTree.Proofs.WordBoundary

/-! Tokens beside one another. Each token is as long as it can be, so what follows it cannot be more
of it, and strings are closed: between their quotes stand contents and escapes, and nowhere else. -/

namespace HslTree

/-- Identifiers, numbers and the keywords whose last character is a letter. -/
def Kind.endsInWord : Kind → Bool
  | identifier | number => true
  | kind => kind.phrase?.any (·.toList.getLast?.any Char.isAlpha)

/-- What may stand next to what. -/
structure Lexeme.MayPrecede (l m : Lexeme) : Prop where
  blank : l.kind = .blank → m.kind ≠ .blank
  word : l.kind.endsInWord = true → ∀ c ∈ m.text.head?, isAsciiWordChar c = false
  comment : l.kind = .comment → m.kind = .endOfInput ∨
    m.kind = .blank ∧ (m.text.head? = some '\r' ∨ m.text.head? = some '\n')
  minus : l.kind = .minus → m.kind = .number

/-- Quotes stand in pairs, with contents and escapes between the two of a pair and nowhere else. -/
inductive QuotesPaired : List Kind → Prop
  | nil : QuotesPaired []
  | outside {k : Kind} {ks : List Kind} (hk : k ≠ .quote ∧ k ≠ .content ∧ k ≠ .escape)
      (hks : QuotesPaired ks) : QuotesPaired (k :: ks)
  | string {inside ks : List Kind} (hinside : ∀ k ∈ inside, k = .content ∨ k = .escape)
      (hks : QuotesPaired ks) : QuotesPaired (.quote :: (inside ++ .quote :: ks))

section Forms

variable {pattern : Pattern} {ls : List Lexeme} {l m : Lexeme} {v : List Char}

theorem Pattern.Forms.exists_first (h : pattern.Forms ls v)
    (hmem : pattern ∈ Lexicon.standard.patterns) :
    ∃ m ms, ls = m :: ms ∧ m.kind = pattern.kind ∧ m.text.head? = (textOf ls).head? := by
  rcases h.single_or_string hmem with ⟨l, rfl, hl, -⟩ | ⟨units, rfl, rfl⟩
  · exact ⟨l, [], rfl, hl, by simp⟩
  · exact ⟨_, _, rfl, rfl, rfl⟩

/-- The lexeme read at the start of a text, or the end mark. -/
structure Lexeme.Opens (m : Lexeme) (text : List Char) : Prop where
  head : m.text.head? = text.head?
  pattern : text = [] ∧ m.kind = .endOfInput ∨ ∃ pattern ∈ Lexicon.standard.patterns,
    m.kind = pattern.kind ∧ ∃ c ∈ text.head?, familyOf? c = some pattern.family

theorem Lexed.exists_opening (h : Lexed ls) :
    ∃ m ms, ls ++ [⟨.endOfInput, []⟩] = m :: ms ∧ m.Opens (textOf ls) := by
  cases h with
  | nil => exact ⟨_, _, rfl, rfl, .inl ⟨rfl, rfl⟩⟩
  | @append pattern ls rest hmem hforms =>
    obtain ⟨m, ms, rfl, hkind, hhead⟩ := hforms.exists_first hmem
    have hphrases (p : Phrase) (hp : pattern = .phrase p) : p ∈ Phrase.all :=
      (Lexicon.withScanner_orderly longestRun).phrases p (hp ▸ hmem)
    obtain ⟨c, tail, hc, hfamily⟩ := pattern.familyOf?_of_read? hphrases hforms.read?
    have htext : textOf ((m :: ms) ++ rest) = c :: tail := by rw [textOf_append, hc]
    refine ⟨m, ms ++ rest ++ [⟨.endOfInput, []⟩], by simp, ?_, .inr ⟨pattern, hmem, hkind, c, ?_⟩⟩
    · rw [hhead, textOf_append, List.head?_append_of_ne_nil _ hforms.textOf_ne_nil]
    · exact ⟨by rw [htext]; rfl, hfamily⟩

theorem Lexeme.Opens.kind_of_family {c : Char} {family : Family} {k : Kind} (h : m.Opens v)
    (hc : v.head? = some c) (hfamily : familyOf? c = some family)
    (hkinds : ∀ p ∈ Lexicon.standard.patterns, p.family = family → p.kind = k) : m.kind = k := by
  obtain ⟨rfl, _⟩ | ⟨pattern, hmem, hkind, d, hd, hfamily'⟩ := h.pattern
  · cases hc
  · obtain rfl : d = c := Option.some.inj (Option.mem_def.mp hd ▸ hc)
    rw [hfamily] at hfamily'
    rw [hkind]
    exact hkinds pattern hmem (Option.some.inj hfamily').symm

theorem Lexeme.Opens.kind_of_nil (h : m.Opens []) : m.kind = .endOfInput := by
  obtain ⟨_, hkind⟩ | ⟨_, _, _, _, hc, _⟩ := h.pattern
  · exact hkind
  · cases hc

theorem isBlank_of_familyOf? {c : Char} (h : familyOf? c = some .blank) : isBlank c = true := by
  by_contra hblank
  rw [familyOf?, if_neg hblank] at h
  split_ifs at h <;> cases h

theorem Lexeme.Opens.isBlank (h : m.Opens v) (hm : m.kind = .blank) :
    ∃ c ∈ v.head?, isBlank c = true := by
  obtain ⟨_, hend⟩ | ⟨pattern, hmem, hkind, c, hc, hfamily⟩ := h.pattern
  · rw [hm] at hend
    cases hend
  · have hfamilies : ∀ p ∈ Lexicon.standard.patterns, p.kind = .blank → p.family = .blank := by
      decide
    rw [hfamilies pattern hmem (hkind.symm.trans hm)] at hfamily
    exact ⟨c, hc, isBlank_of_familyOf? hfamily⟩

theorem Lexeme.mayPrecede_any (hword : l.kind.endsInWord = false) (hblank : l.kind ≠ .blank)
    (hcomment : l.kind ≠ .comment) (hminus : l.kind ≠ .minus) (m : Lexeme) : l.MayPrecede m where
  blank hl := absurd hl hblank
  word hl := by simp [hword] at hl
  comment hl := absurd hl hcomment
  minus hl := absurd hl hminus

theorem Lexeme.mayPrecede_of_word (hblank : l.kind ≠ .blank) (hcomment : l.kind ≠ .comment)
    (hminus : l.kind ≠ .minus) (hm : m.Opens v)
    (hv : l.kind.endsInWord = true → ∀ c ∈ v.head?, isAsciiWordChar c = false) :
    l.MayPrecede m where
  blank hl := absurd hl hblank
  word hl := hm.head ▸ hv hl
  comment hl := absurd hl hcomment
  minus hl := absurd hl hminus

theorem Phrase.endsInLetter_of_kind : ∀ p ∈ Phrase.all,
    p.kind.endsInWord = true → p.endsInLetter = true := by decide +kernel

/-- The character behind a token decides what the next token is. -/
theorem Pattern.Forms.mayPrecede (h : pattern.Forms ls v)
    (hmem : pattern ∈ Lexicon.standard.patterns) (hm : m.Opens v) (hls : ls = [l]) :
    l.MayPrecede m := by
  cases h with
  | blank _ _ hv =>
    cases hls
    refine ⟨fun _ hkind => ?_, fun hl => absurd hl Bool.false_ne_true, by simp, by simp⟩
    obtain ⟨c, hc, hblank⟩ := hm.isBlank hkind
    rw [hv c hc] at hblank
    cases hblank
  | comment _ hv =>
    cases hls
    refine ⟨by simp, fun hl => absurd hl Bool.false_ne_true, fun _ => ?_, by simp⟩
    cases v with
    | nil => exact .inl (hm.kind_of_nil)
    | cons c v =>
      have hc : c = '\r' ∨ c = '\n' := by simpa [endsLine] using hv c rfl
      have hblank : isBlank c = true := by rcases hc with rfl | rfl <;> decide
      refine .inr ⟨hm.kind_of_family rfl (familyOf?_blank hblank) (by decide), ?_⟩
      rw [hm.head]
      simpa using hc
  | @phrase p _ hne hv =>
    cases hls
    have hp := (Lexicon.withScanner_orderly longestRun).phrases p hmem
    have hkinds : ∀ p ∈ Phrase.all, p.kind ≠ .blank ∧ p.kind ≠ .comment ∧ p.kind ≠ .minus := by
      decide
    obtain ⟨hblank, hcomment, hminus⟩ := hkinds p hp
    refine Lexeme.mayPrecede_of_word hblank hcomment hminus hm fun hword c hc => ?_
    have hends := Phrase.endsBefore_iff.mp hv (Phrase.endsInLetter_of_kind p hp hword) c hc
    by_contra hascii
    rw [isWordChar_of_isAsciiWordChar (by simpa using hascii)] at hends
    cases hends
  | identifier _ hv | number _ hv =>
    cases hls
    exact Lexeme.mayPrecede_of_word (by simp) (by simp) (by simp) hm fun _ => hv
  | @minus d v hd =>
    cases hls
    refine ⟨by simp, fun hl => absurd hl Bool.false_ne_true, by simp, fun _ => ?_⟩
    exact hm.kind_of_family rfl (familyOf?_number hd) (by decide)
  | char =>
    cases hls
    exact Lexeme.mayPrecede_any rfl (by simp) (by simp) (by simp) m
  | string => simp [stringLexemes] at hls

end Forms

section Chains

variable {ls ms : List Lexeme} {units : List StringUnit}

theorem mayPrecede_of_mem_string {l : Lexeme} (hl : l ∈ stringLexemes units) (m : Lexeme) :
    l.MayPrecede m := by
  have hkind : l.kind = .quote ∨ l.kind = .content ∨ l.kind = .escape := by
    simp only [stringLexemes, List.mem_cons, List.mem_append, List.not_mem_nil, or_false] at hl
    rcases hl with rfl | hl | rfl
    · exact .inl rfl
    · exact .inr (StringUnit.kind_of_mem_lexemes l hl)
    · exact .inl rfl
  rcases hkind with hl | hl | hl <;>
    exact Lexeme.mayPrecede_any (by rw [hl]; decide) (by simp [hl]) (by simp [hl]) (by simp [hl]) m

theorem isChain_append_of_any (hls : ∀ l ∈ ls, ∀ m, l.MayPrecede m)
    (hms : ms.IsChain Lexeme.MayPrecede) : (ls ++ ms).IsChain Lexeme.MayPrecede := by
  induction ls with
  | nil => exact hms
  | cons l ls ih =>
    have hrest := ih fun k hk => hls k (by simp [hk])
    exact List.isChain_cons.mpr ⟨fun m _ => hls l (by simp) m, hrest⟩

theorem Lexed.isChain (h : Lexed ls) :
    (ls ++ [Lexeme.mk .endOfInput []]).IsChain Lexeme.MayPrecede := by
  induction h with
  | nil => exact List.isChain_singleton _
  | @append pattern ls rest hmem hforms _ hrest ih =>
    rw [List.append_assoc]
    rcases hforms.single_or_string hmem with ⟨l, rfl, -⟩ | ⟨units, -, rfl⟩
    · obtain ⟨m, ms, hnext, hopens⟩ := hrest.exists_opening
      refine List.isChain_cons.mpr ⟨fun k hk => ?_, ih⟩
      obtain rfl : m = k := by simpa [hnext] using hk
      exact hforms.mayPrecede hmem hopens rfl
    · exact isChain_append_of_any (fun l => mayPrecede_of_mem_string) ih

theorem Lexed.quotesPaired (h : Lexed ls) : QuotesPaired (ls.map (·.kind) ++ [.endOfInput]) := by
  induction h with
  | nil => exact .outside (by simp) .nil
  | @append pattern ls rest hmem hforms _ _ ih =>
    rw [List.map_append, List.append_assoc]
    rcases hforms.single_or_string hmem with ⟨l, rfl, -, hl⟩ | ⟨units, -, rfl⟩
    · exact .outside hl ih
    · have hkinds : ∀ k ∈ (StringUnit.lexemes units).map (·.kind), k = .content ∨ k = .escape := by
        intro k hk
        obtain ⟨l, hl, rfl⟩ := List.mem_map.mp hk
        exact StringUnit.kind_of_mem_lexemes l hl
      simpa [stringLexemes] using QuotesPaired.string hkinds ih

end Chains

/-- Neighbours in a source that is read: no blank stands next to a blank, no word runs into a word
character, a comment ends its line, a minus has its number, and quotes enclose contents and escapes,
which stand nowhere else. -/
theorem readTokens_neighbours {source : String} {label? : Option String} {tokens : List Token}
    (h : Lexicon.standard.readTokens source label? = .ok tokens) :
    tokens.IsChain (fun t u => t.lexeme.MayPrecede u.lexeme) ∧
      QuotesPaired (tokens.map (·.kind)) := by
  obtain ⟨ls, hread, rfl⟩ := Lexicon.read_of_readTokens h
  have hlexed := (Lexicon.read_eq_iff.mp hread).1
  have hlexemes (position : Position) : (placeAll (label?.getD defaultLabel) 0 ls ++
      [Token.endAt position]).map Token.lexeme = ls ++ [⟨.endOfInput, []⟩] := by
    rw [List.map_append, map_lexeme_placeAll]
    rfl
  constructor
  · rw [← List.isChain_map Token.lexeme, hlexemes]
    exact hlexed.isChain
  · have hkinds : (fun t : Token => t.kind) = Lexeme.kind ∘ Token.lexeme := rfl
    rw [hkinds, ← List.map_map, hlexemes, List.map_append]
    exact hlexed.quotesPaired

theorem neighbours_of_escapes_and_comment :
    ∃ tokens, Lexicon.standard.readTokens "f\"\\n\\t\"-0x1<(-.-)>\r\nStarfield" none = .ok tokens ∧
      tokens.map (·.kind) = [.identifier, .quote, .escape, .content, .escape, .quote, .minus,
        .number, .comment, .blank, .variadic, .endOfInput] ∧
      tokens.IsChain (fun t u => t.lexeme.MayPrecede u.lexeme) ∧
      QuotesPaired (tokens.map (·.kind)) := by
  have hkinds : (Lexicon.standard.readTokens "f\"\\n\\t\"-0x1<(-.-)>\r\nStarfield" none).map
      (·.map (·.kind)) = .ok [.identifier, .quote, .escape, .content, .escape, .quote, .minus,
        .number, .comment, .blank, .variadic, .endOfInput] := by decide +kernel
  cases htokens :
      Lexicon.standard.readTokens "f\"\\n\\t\"-0x1<(-.-)>\r\nStarfield" none with
  | error d =>
    rw [htokens] at hkinds
    cases hkinds
  | ok tokens =>
    rw [htokens] at hkinds
    obtain ⟨hchain, hquotes⟩ := readTokens_neighbours htokens
    exact ⟨tokens, rfl, Except.ok.inj hkinds, hchain, hquotes⟩

end HslTree
