import HslTree.Proofs.Lossless

/-! Tokens keep their source whatever a scanner answers: their texts make up all of the source, or
the part of it in front of the cursor where a fault stopped the reading, and their places count the
bytes of these texts. -/

namespace HslTree

def bytesOf (tokens : List Token) : Nat := (tokens.map fun t => byteLength t.value.toList).sum

/-- A token that starts `n` bytes into a file. Offsets are words of 32 bits. -/
structure Token.StandsAt (t : Token) (file : String) (n : Nat) : Prop where
  start : t.span.start.offset.toNat = n % 2 ^ 32
  stop : t.span.stop.offset.toNat = (n + byteLength t.value.toList) % 2 ^ 32
  startFile : t.span.start.file = file
  stopFile : t.span.stop.file = file

/-- Each token stands behind the texts of the tokens in front of it. -/
def Contiguous (file : String) (tokens : List Token) : Prop :=
  ∀ pre t post, tokens = pre ++ t :: post → t.StandsAt file (bytesOf pre)

/-- A whole source as tokens. The end mark at its end is the last of them and the only one. -/
structure ClosedTokens (source file : String) (tokens : List Token) : Prop where
  text : String.join (tokens.map (·.value)) = source
  places : Contiguous file tokens
  mark : ∃ kept, tokens = kept ++ [.endAt (.at file (byteLength source.toList))] ∧
    ∀ t ∈ kept, t.kind ≠ .endOfInput

/-- What is kept of a source in front of a cursor. -/
structure KeptTokens (source file : String) (cursor : Nat) (tokens : List Token) : Prop where
  text : ∃ rest, splitAtByte? cursor source.toList =
    some ((String.join (tokens.map (·.value))).toList, rest)
  places : Contiguous file tokens
  marks : ∀ t ∈ tokens, t.kind ≠ .endOfInput

section Place

variable {file : String}

theorem Lexeme.place_standsAt (l : Lexeme) (n : Nat) : (l.place file n).StandsAt file n where
  start := UInt32.toNat_ofNat'
  stop := by
    have htext : (l.place file n).value.toList = l.text := String.toList_ofList
    rw [htext]
    exact UInt32.toNat_ofNat'
  startFile := rfl
  stopFile := rfl

theorem bytesOf_placeAll (a : Nat) (ls : List Lexeme) :
    bytesOf (placeAll file a ls) = byteLength (textOf ls) := by
  induction ls generalizing a with
  | nil => rfl
  | cons l ls ih =>
    have hl : (l.place file a).value.toList = l.text := String.toList_ofList
    have hrest := ih (a + byteLength l.text)
    simp only [bytesOf] at hrest
    simp [placeAll, bytesOf, hl, hrest]

theorem contiguous_placeAll (ls : List Lexeme) : Contiguous file (placeAll file 0 ls) := by
  intro pre t post hsplit
  obtain ⟨us, vs, rfl, rfl, hvs⟩ := placeAll_split hsplit.symm
  cases vs with
  | nil => cases hvs
  | cons v vs =>
    obtain ⟨rfl, _⟩ := List.cons.inj hvs
    rw [bytesOf_placeAll, Nat.zero_add]
    exact v.place_standsAt _

theorem placeAll_append_end (a : Nat) (ls : List Lexeme) :
    placeAll file a (ls ++ [⟨.endOfInput, []⟩]) =
      placeAll file a ls ++ [.endAt (.at file (a + byteLength (textOf ls)))] := by
  rw [placeAll_append]
  rfl

end Place

theorem Session.run?_start (lexicon : Lexicon) (source file : String) :
    (Session.start lexicon source file).run? =
      some (⟨lexicon, source, file, (lexicon.readAt file 0 source.toList).stop,
        (lexicon.readAt file 0 source.toList).tokens⟩,
        (lexicon.readAt file 0 source.toList).diagnostic?) := by
  have hunread : (Session.start lexicon source file).unread? = some source.toList := by
    simp [Session.unread?, Session.start, splitAtByte?]
  unfold Session.run?
  split
  · rename_i hend
    have hzero : byteLength source.toList ≤ 0 := of_decide_eq_true hend
    have hnil : source.toList = [] := by
      cases hsource : source.toList with
      | nil => rfl
      | cons c cs =>
        have hc := c.utf8Size_pos
        rw [hsource, byteLength] at hzero
        omega
    have hread : lexicon.read [] = ⟨[], [], none⟩ := by
      rw [Lexicon.read, if_pos rfl]
    rw [hnil]
    simp [Lexicon.readAt, hread, Session.start, Session.tokensClosedAt, placeAll, byteLength]
  · rw [hunread]
    rfl

theorem Lexicon.fault?_of_readTokens {lexicon : Lexicon} {source : String}
    {label? : Option String} {tokens : List Token}
    (h : lexicon.readTokens source label? = .ok tokens) :
    (lexicon.read source.toList).fault? = none := by
  cases hfault : (lexicon.read source.toList).fault? with
  | none => rfl
  | some d =>
    rw [readTokens, readAt_of_some _ _ hfault] at h
    cases h

section Scanner

variable {scanner : Scanner} {text : List Char}

theorem withScanner_covers (scanner : Scanner) (text : List Char) :
    ((Lexicon.withScanner scanner).read text).Covers text := by
  have hkinds : ∀ p ∈ (Lexicon.withScanner scanner).patterns, p.kind ≠ .endOfInput :=
    Lexicon.standard_kinds
  exact Lexicon.read_covers hkinds text

theorem placeAll_marks (file : String) (a : Nat) :
    ∀ t ∈ placeAll file a ((Lexicon.withScanner scanner).read text).lexemes,
      t.kind ≠ .endOfInput := by
  intro t ht
  obtain ⟨l, hl, hkind⟩ := kind_of_mem_placeAll ht
  rw [hkind]
  exact (withScanner_covers scanner text).marks l hl

theorem closed_of_no_fault {source : String} (file : String)
    (h : ((Lexicon.withScanner scanner).read source.toList).fault? = none) :
    ClosedTokens source file
      ((Lexicon.withScanner scanner).readAt file 0 source.toList).tokens := by
  have htext : textOf ((Lexicon.withScanner scanner).read source.toList).lexemes =
      source.toList := by
    have hcovers := (withScanner_covers scanner source.toList).text
    rwa [Lexicon.read_rest h, List.append_nil] at hcovers
  rw [Lexicon.readAt_of_none file 0 h]
  refine ⟨?_, ?_, _, by rw [htext, Nat.zero_add], placeAll_marks file 0⟩
  · rw [← placeAll_append_end, values_placeAll, textOf_append, htext]
    simp
  · rw [← placeAll_append_end]
    exact contiguous_placeAll _

theorem kept_of_fault {source : String} (file : String) {d : Fault × Nat}
    (h : ((Lexicon.withScanner scanner).read source.toList).fault? = some d) :
    KeptTokens source file
      ((Lexicon.withScanner scanner).readAt file 0 source.toList).stop
      ((Lexicon.withScanner scanner).readAt file 0 source.toList).tokens := by
  have hcut := splitAtByte?_byteLength
    (textOf ((Lexicon.withScanner scanner).read source.toList).lexemes)
    ((Lexicon.withScanner scanner).read source.toList).rest
  rw [(withScanner_covers scanner source.toList).text] at hcut
  rw [Lexicon.readAt_of_some file 0 h, Nat.zero_add]
  refine ⟨⟨((Lexicon.withScanner scanner).read source.toList).rest, ?_⟩, contiguous_placeAll _,
    placeAll_marks file 0⟩
  rw [values_placeAll, String.toList_ofList]
  exact hcut

end Scanner

/-- Also a scanner that answers with empty runs, runs beyond the end or runs that end inside a
character loses nothing of a source. -/
theorem every_scanner_keeps_source (scanner : Scanner) (source : String)
    (label? : Option String) :
    (∀ tokens, (Lexicon.withScanner scanner).readTokens source label? = .ok tokens →
      ClosedTokens source (label?.getD defaultLabel) tokens) ∧
    ∃ session x?, (Session.start (.withScanner scanner) source (label?.getD defaultLabel)).run? =
        some (session, x?) ∧
      (x? = none →
        (Lexicon.withScanner scanner).readTokens source label? = .ok session.tokens) ∧
      ∀ x, x? = some x → (Lexicon.withScanner scanner).readTokens source label? = .error x ∧
        KeptTokens source (label?.getD defaultLabel) session.cursor session.tokens := by
  have hrun := Session.run?_start (.withScanner scanner) source (label?.getD defaultLabel)
  refine ⟨?_, _, _, hrun, ?_, ?_⟩
  · intro tokens h
    have hfault := Lexicon.fault?_of_readTokens h
    have hclosed := closed_of_no_fault (label?.getD defaultLabel) hfault
    rw [Lexicon.readTokens, Lexicon.readAt_of_none _ _ hfault] at h
    rw [Lexicon.readAt_of_none _ _ hfault] at hclosed
    cases h
    exact hclosed
  · intro hnone
    rw [Lexicon.readTokens, hnone]
  · intro x hx
    refine ⟨by rw [Lexicon.readTokens, hx], ?_⟩
    cases hfault : ((Lexicon.withScanner scanner).read source.toList).fault? with
    | none =>
      rw [Lexicon.readAt_of_none _ _ hfault] at hx
      cases hx
    | some d => exact kept_of_fault _ hfault

/-- A scanner that always answers one byte reads `ab` in two runs, and stops at `é`. -/
theorem single_byte_scanner_keeps_source :
    (∃ tokens, (Lexicon.withScanner fun _ => some 1).readTokens "\"ab\\n\\t\" x" none = .ok tokens ∧
      ClosedTokens "\"ab\\n\\t\" x" defaultLabel tokens) ∧
    ∃ session x, (Session.start (.withScanner fun _ => some 1) "\"aé\"" defaultLabel).run? =
        some (session, some x) ∧
      KeptTokens "\"aé\"" defaultLabel session.cursor session.tokens := by
  have hfirst := every_scanner_keeps_source (fun _ => some 1) "\"ab\\n\\t\" x" none
  have hsecond := every_scanner_keeps_source (fun _ => some 1) "\"aé\"" none
  have hok : ((Lexicon.withScanner fun _ => some 1).readTokens "\"ab\\n\\t\" x" none).isOk =
      true := by decide +kernel
  have hfail : ((Lexicon.withScanner fun _ => some 1).readTokens "\"aé\"" none).isOk = false := by
    decide +kernel
  constructor
  · obtain ⟨tokens, htokens⟩ := exists_of_isOk hok
    exact ⟨tokens, htokens, hfirst.1 tokens htokens⟩
  · obtain ⟨session, x?, hrun, hnone, hsome⟩ := hsecond.2
    cases x? with
    | none =>
      rw [hnone rfl] at hfail
      cases hfail
    | some x => exact ⟨session, x, hrun, (hsome x rfl).2⟩

end HslTree
