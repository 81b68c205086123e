import HslTree.Proofs.TokenPlaces

/-! Scanners may cut the plain text of a string differently. Once the runs that lie side by side are
merged, every reading is the one that takes each run as long as possible. -/

namespace HslTree

section Merge

variable {α : Type} {isRun : α → Bool} {join : α → α → α}

def glue (isRun : α → Bool) (join : α → α → α) (x : α) : List α → List α
  | y :: ys => if isRun x && isRun y then join x y :: ys else x :: y :: ys
  | [] => [x]

/-- Joins the runs of a list that are neighbours. -/
def mergeRuns (isRun : α → Bool) (join : α → α → α) (xs : List α) : List α :=
  xs.foldr (glue isRun join) []

theorem glue_of_not_run {x : α} (h : isRun x = false) (ys : List α) :
    glue isRun join x ys = x :: ys := by
  cases ys <;> simp [glue, h]

theorem glue_of_head {x : α} {ys : List α} (h : ∀ y ∈ ys.head?, isRun y = false) :
    glue isRun join x ys = x :: ys := by
  cases ys with
  | nil => rfl
  | cons y ys =>
    have hy : isRun y = false := h y rfl
    simp [glue, hy]

theorem glue_ne_nil (x : α) (ys : List α) : glue isRun join x ys ≠ [] := by
  cases ys with
  | nil => simp [glue]
  | cons y ys => by_cases h : (isRun x && isRun y) = true <;> simp [glue, h]

theorem glue_append (x : α) {ys : List α} (hys : ys ≠ []) (zs : List α) :
    glue isRun join x (ys ++ zs) = glue isRun join x ys ++ zs := by
  cases ys with
  | nil => exact absurd rfl hys
  | cons y ys => by_cases h : (isRun x && isRun y) = true <;> simp [glue, h]

/-- Lists can be merged apart from one another if no two runs meet where they are joined. -/
theorem mergeRuns_append {xs ys : List α}
    (h : ∀ x ∈ xs.getLast?, ∀ y ∈ ys.head?, (isRun x && isRun y) = false) :
    mergeRuns isRun join (xs ++ ys) = mergeRuns isRun join xs ++ mergeRuns isRun join ys := by
  induction xs with
  | nil => rfl
  | cons x xs ih =>
    cases xs with
    | nil =>
      change glue isRun join x (mergeRuns isRun join ys) = x :: mergeRuns isRun join ys
      cases ys with
      | nil => rfl
      | cons y ys =>
        rcases Bool.and_eq_false_iff.mp (h x rfl y rfl) with hx | hy
        · exact glue_of_not_run hx _
        · apply glue_of_head
          rw [mergeRuns, List.foldr_cons, glue_of_not_run hy]
          simpa using hy
    | cons x' xs =>
      have hxs := ih fun z hz => h z (by simpa [List.getLast?_cons_cons] using hz)
      have hne : mergeRuns isRun join (x' :: xs) ≠ [] := glue_ne_nil _ _
      change glue isRun join x (mergeRuns isRun join ((x' :: xs) ++ ys)) = _
      rw [hxs, glue_append x hne]
      rfl

end Merge

namespace Lexeme

def isRun (l : Lexeme) : Bool := l.kind == .content

def join (l m : Lexeme) : Lexeme := ⟨.content, l.text ++ m.text⟩

end Lexeme

def mergeLexemes : List Lexeme → List Lexeme := mergeRuns Lexeme.isRun Lexeme.join

namespace Token

def isRun (t : Token) : Bool := t.kind == .content

def join (t u : Token) : Token := ⟨.content, t.value ++ u.value, ⟨t.span.start, u.span.stop⟩⟩

end Token

/-- Joins neighbouring runs of a string: texts and places of all of them become one token's. -/
def mergeTokens : List Token → List Token := mergeRuns Token.isRun Token.join

namespace Reading

def merged (r : Reading) : Reading := { r with lexemes := mergeLexemes r.lexemes }

def glued (l : Lexeme) (r : Reading) : Reading :=
  { r with lexemes := glue Lexeme.isRun Lexeme.join l r.lexemes }

theorem merged_after_single (l : Lexeme) (r : Reading) :
    (r.after [l]).merged = r.merged.glued l := rfl

theorem merged_after {ls : List Lexeme} (h : ∀ l ∈ ls.getLast?, l.isRun = false) (r : Reading) :
    (r.after ls).merged = r.merged.after (mergeLexemes ls) := by
  have hlexemes : mergeLexemes (ls ++ r.lexemes) = mergeLexemes ls ++ mergeLexemes r.lexemes :=
    mergeRuns_append fun l hl _ _ => by rw [h l hl, Bool.false_and]
  simp [merged, after, hlexemes]

end Reading

theorem mergeLexemes_cons (l : Lexeme) (ls : List Lexeme) :
    mergeLexemes (l :: ls) = glue Lexeme.isRun Lexeme.join l (mergeLexemes ls) := rfl

theorem glue_place (file : String) (a : Nat) (l : Lexeme) (ms : List Lexeme) :
    glue Token.isRun Token.join (l.place file a) (placeAll file (a + byteLength l.text) ms) =
      placeAll file a (glue Lexeme.isRun Lexeme.join l ms) := by
  cases ms with
  | nil => rfl
  | cons m ms =>
    have hl : (l.place file a).isRun = l.isRun := rfl
    have hm : (m.place file (a + byteLength l.text)).isRun = m.isRun := rfl
    have hjoin : (l.place file a).join (m.place file (a + byteLength l.text)) =
        (l.join m).place file a := by
      simp [Lexeme.join, Token.join, Lexeme.place, Span.between, String.ofList_append,
        Nat.add_assoc]
    by_cases h : (l.isRun && m.isRun) = true
    · have hlength : byteLength (l.join m).text = byteLength l.text + byteLength m.text := by
        simp [Lexeme.join]
      simp only [placeAll, glue, hl, hm, h, if_true, hjoin, hlength, Nat.add_assoc]
    · simp [placeAll, glue, hl, hm, h]

theorem mergeTokens_placeAll (file : String) (a : Nat) (ls : List Lexeme) :
    mergeTokens (placeAll file a ls) = placeAll file a (mergeLexemes ls) := by
  induction ls generalizing a with
  | nil => rfl
  | cons l ls ih =>
    have hrest := ih (a + byteLength l.text)
    rw [mergeLexemes_cons, ← glue_place, ← hrest]
    rfl

theorem textOf_glue (l : Lexeme) (ms : List Lexeme) :
    textOf (glue Lexeme.isRun Lexeme.join l ms) = l.text ++ textOf ms := by
  cases ms with
  | nil => rfl
  | cons m ms => by_cases h : (l.isRun && m.isRun) = true <;> simp [glue, h, Lexeme.join]

theorem textOf_mergeLexemes (ls : List Lexeme) : textOf (mergeLexemes ls) = textOf ls := by
  induction ls with
  | nil => rfl
  | cons l ls ih => rw [mergeLexemes_cons, textOf_glue, ih, textOf_cons]

theorem mergeLexemes_append_single (ls : List Lexeme) {l : Lexeme} (hl : l.isRun = false) :
    mergeLexemes (ls ++ [l]) = mergeLexemes ls ++ [l] := by
  refine mergeRuns_append fun m _ l' hl' => ?_
  obtain rfl : l = l' := by simpa using hl'
  rw [hl, Bool.and_false]

/-- What is asked of a scanner. It is told texts that start with a plain character, and answers
`none` just if there is no quote or backslash ahead, else a run that is not empty, ends between two
characters and does not reach beyond the first quote or backslash. -/
structure Scanner.Conforms (scanner : Scanner) : Prop where
  none_iff : ∀ c rest, isPlain c = true →
    (scanner (c :: rest) = none ↔ ∀ d ∈ c :: rest, d ≠ '"' ∧ d ≠ '\\')
  positive : ∀ c rest n, isPlain c = true → scanner (c :: rest) = some n → 0 < n
  boundary : ∀ c rest n, isPlain c = true → scanner (c :: rest) = some n →
    (splitAtByte? n (c :: rest)).isSome = true
  within : ∀ c rest n, isPlain c = true → scanner (c :: rest) = some n →
    n ≤ byteLength ((c :: rest).takeWhile isPlain)

theorem all_isPlain_iff {text : List Char} :
    text.all isPlain = true ↔ ∀ d ∈ text, d ≠ '"' ∧ d ≠ '\\' := by
  simp [isPlain]

section Steps

variable {scanner : Scanner} {ae : Bool} {c : Char} {rest rest' body run : List Char}
  {fault : Fault} {distance : Nat}

theorem readStringBody_nil : readStringBody scanner ae [] = .failed .unterminatedString 0 [] := by
  rw [readStringBody]

theorem readStringBody_quote :
    readStringBody scanner ae ('"' :: rest) = .single .quote ['"'] rest := by
  rw [readStringBody]

theorem readStringBody_escape (h : readEscape rest = .ok (body, rest')) :
    readStringBody scanner ae ('\\' :: rest) =
      (readStringBody scanner true rest').after (escapeLexemes ae body) := by
  rw [readStringBody]
  split <;> simp_all

theorem readStringBody_escape_error (h : readEscape rest = .error (fault, distance)) :
    readStringBody scanner ae ('\\' :: rest) = .failed fault distance ('\\' :: rest) := by
  rw [readStringBody]
  split <;> simp_all

theorem readStringBody_content (hc : isPlain c = true)
    (h : readContent scanner (c :: rest) = .ok (run, rest')) :
    readStringBody scanner ae (c :: rest) =
      (readStringBody scanner false rest').after [⟨.content, run⟩] := by
  have hplain : c ≠ '"' ∧ c ≠ '\\' := by simpa [isPlain] using hc
  rw [readStringBody]
  · split <;> simp_all
  · exact hplain.1
  · exact hplain.2

theorem readStringBody_content_error (hc : isPlain c = true)
    (h : readContent scanner (c :: rest) = .error (fault, distance)) :
    readStringBody scanner ae (c :: rest) = .failed fault distance (c :: rest) := by
  have hplain : c ≠ '"' ∧ c ≠ '\\' := by simpa [isPlain] using hc
  rw [readStringBody]
  · split <;> simp_all
  · exact hplain.1
  · exact hplain.2

end Steps

theorem readContent_plain {scanner : Scanner} {text run rest : List Char}
    (h : readContent scanner text = .ok (run, rest)) : run.all isPlain = true := by
  unfold readContent at h
  split at h
  · cases h
  · split at h
    · rename_i parts hparts
      cases h
      unfold plainRun? at hparts
      split at hparts
      · split at hparts
        · rename_i hplain
          cases hparts
          exact hplain.2
        · cases hparts
      · cases hparts
    · cases h

theorem plainRun?_byteLength {run : List Char} (hne : run ≠ []) (hplain : run.all isPlain = true)
    (rest : List Char) : plainRun? (byteLength run) (run ++ rest) = some (run, rest) := by
  simp [plainRun?, splitAtByte?_byteLength, hne, hplain]

section LongestRun

variable {ae : Bool} {text run rest : List Char}

theorem readContent_longestRun (hne : run ≠ []) (hplain : run.all isPlain = true)
    (hrest : rest.all isPlain = false) :
    readContent longestRun (run ++ rest) =
      .ok (run ++ rest.takeWhile isPlain, rest.dropWhile isPlain) := by
  have hall : (run ++ rest).all isPlain = false := by simp [hrest]
  have htake : (run ++ rest).takeWhile isPlain = run ++ rest.takeWhile isPlain :=
    List.takeWhile_append_of_pos (by simpa using hplain)
  have hrun : (run ++ rest.takeWhile isPlain).all isPlain = true := by
    simp only [List.all_append, hplain, Bool.true_and, List.all_eq_true]
    exact fun c hc => List.mem_takeWhile_imp hc
  have hfound := plainRun?_byteLength (by simp [hne]) hrun (rest.dropWhile isPlain)
  rw [List.append_assoc, List.takeWhile_append_dropWhile] at hfound
  simp only [readContent, longestRun, hall, htake, hfound, Bool.false_eq_true, if_false]

theorem readStringBody_longestRun_fault (h : text.all isPlain = true) :
    (readStringBody longestRun ae text).fault? ≠ none := by
  cases text with
  | nil =>
    rw [readStringBody_nil]
    simp [Reading.failed]
  | cons c rest =>
    have hc : isPlain c = true := List.all_eq_true.mp h c (by simp)
    have hnone : readContent longestRun (c :: rest) =
        .error (.unterminatedString, byteLength (c :: rest)) := by
      simp [readContent, longestRun, h]
    rw [readStringBody_content_error hc hnone]
    simp [Reading.failed]

/-- Behind a run comes no other run at once. -/
theorem head_longestRun (h : ∀ c ∈ text.head?, isPlain c = false) :
    ∀ l ∈ (readStringBody longestRun false text).lexemes.head?, l.isRun = false := by
  cases text with
  | nil =>
    rw [readStringBody_nil]
    simp [Reading.failed]
  | cons c rest =>
    have hc : c = '"' ∨ c = '\\' := by
      have hplain : isPlain c = false := h c rfl
      simpa [isPlain, or_iff_not_imp_left] using hplain
    rcases hc with rfl | rfl
    · rw [readStringBody_quote]
      simp [Reading.single, Lexeme.isRun]
    · cases hescape : readEscape rest with
      | ok parts =>
        obtain ⟨body, rest'⟩ := parts
        rw [readStringBody_escape hescape]
        simp [Reading.after, escapeLexemes, Lexeme.isRun]
      | error d =>
        obtain ⟨fault, distance⟩ := d
        rw [readStringBody_escape_error hescape]
        simp [Reading.failed]

theorem readStringBody_run (hne : run ≠ []) (hplain : run.all isPlain = true)
    (hrest : rest.all isPlain = false) :
    readStringBody longestRun ae (run ++ rest) =
      (readStringBody longestRun false rest).glued ⟨.content, run⟩ := by
  have hfound := readContent_longestRun hne hplain hrest
  have hread : readStringBody longestRun ae (run ++ rest) =
      (readStringBody longestRun false (rest.dropWhile isPlain)).after
        [⟨.content, run ++ rest.takeWhile isPlain⟩] := by
    cases run with
    | nil => exact absurd rfl hne
    | cons c run =>
      have hc : isPlain c = true := List.all_eq_true.mp hplain c (by simp)
      exact readStringBody_content hc hfound
  rw [hread]
  cases rest with
  | nil => cases hrest
  | cons d rest =>
    cases hd : isPlain d with
    | true =>
      have hnext : readContent longestRun (d :: rest) =
          .ok (d :: rest.takeWhile isPlain, rest.dropWhile isPlain) :=
        readContent_longestRun (List.cons_ne_nil d []) (by simpa using hd)
          (by simpa [hd] using hrest)
      rw [readStringBody_content hd hnext, List.takeWhile_cons_of_pos hd,
        List.dropWhile_cons_of_pos hd]
      simp [Reading.glued, Reading.after, glue, Lexeme.isRun, Lexeme.join]
    | false =>
      have hhead : ∀ c ∈ (d :: rest).head?, isPlain c = false := by simpa using hd
      rw [List.takeWhile_cons_of_neg (by simp [hd]), List.dropWhile_cons_of_neg (by simp [hd]),
        Reading.glued, glue_of_head (head_longestRun hhead)]
      simp [Reading.after]

end LongestRun

theorem eq_of_prefix_of_byteLength {cs ds : List Char} (h : cs <+: ds)
    (hle : byteLength ds ≤ byteLength cs) : cs = ds := by
  obtain ⟨tail, rfl⟩ := h
  cases tail with
  | nil => simp
  | cons c tail =>
    have hc := c.utf8Size_pos
    rw [byteLength_append, byteLength] at hle
    omega

section Conforms

variable {scanner : Scanner} {c : Char} {rest : List Char}

theorem Scanner.Conforms.readContent_ok (h : scanner.Conforms) (hc : isPlain c = true) {n : Nat}
    (hn : scanner (c :: rest) = some n) : ∃ parts, readContent scanner (c :: rest) = .ok parts := by
  obtain ⟨⟨run, after⟩, hsplit⟩ := Option.isSome_iff_exists.mp (h.boundary c rest n hc hn)
  obtain ⟨happend, hlength⟩ := append_of_splitAtByte? hsplit
  have hpos := h.positive c rest n hc hn
  have hne : run ≠ [] := by
    rintro rfl
    rw [byteLength] at hlength
    omega
  have hrun : run <+: c :: rest := ⟨after, happend⟩
  have hbegins : run <+: (c :: rest).takeWhile isPlain := by
    rcases List.prefix_or_prefix_of_prefix hrun (List.takeWhile_prefix isPlain) with hle | hge
    · exact hle
    · -- The longest run is not shorter than the answer, so here they are one.
      have hwithin := h.within c rest n hc hn
      rw [eq_of_prefix_of_byteLength hge (by omega)]
  have hplain : run.all isPlain = true := by
    rw [List.all_eq_true]
    exact fun d hd => List.mem_takeWhile_imp (hbegins.subset hd)
  exact ⟨(run, after), by simp [readContent, hn, plainRun?, hsplit, hne, hplain]⟩

theorem Scanner.Conforms.readContent_error (h : scanner.Conforms) (hc : isPlain c = true)
    {d : Fault × Nat} (herror : readContent scanner (c :: rest) = .error d) :
    readContent longestRun (c :: rest) = .error d := by
  cases hn : scanner (c :: rest) with
  | some n =>
    obtain ⟨parts, hok⟩ := h.readContent_ok hc hn
    rw [hok] at herror
    cases herror
  | none =>
    have hall := all_isPlain_iff.mpr ((h.none_iff c rest hc).mp hn)
    have hd : (.unterminatedString, byteLength (c :: rest)) = d := by
      simpa [readContent, hn] using herror
    simp [readContent, longestRun, hall, hd]

theorem Scanner.Conforms.not_all_plain (h : scanner.Conforms) (hc : isPlain c = true)
    {parts : List Char × List Char} (hok : readContent scanner (c :: rest) = .ok parts) :
    (c :: rest).all isPlain = false := by
  by_contra hall
  have hall' : (c :: rest).all isPlain = true := by simpa using hall
  have hnone := (h.none_iff c rest hc).mpr (all_isPlain_iff.mp hall')
  simp [readContent, hnone] at hok

end Conforms

/-- A reading that is no failure of the scanner's is the longest runs' reading, cut into pieces. -/
theorem readStringBody_merged {scanner : Scanner} (ae : Bool) (text : List Char)
    (h : scanner.Conforms ∨ (readStringBody scanner ae text).fault? = none) :
    readStringBody longestRun ae text = (readStringBody scanner ae text).merged := by
  fun_induction readStringBody scanner ae text with
  | case1 =>
    rw [readStringBody_nil]
    rfl
  | case2 =>
    rw [readStringBody_quote]
    rfl
  | case3 ae rest body rest' hbody ih =>
    have hlast : ∀ l ∈ (escapeLexemes ae body).getLast?, l.isRun = false := by
      cases ae <;> simp [escapeLexemes, Lexeme.isRun]
    have hmerge : mergeLexemes (escapeLexemes ae body) = escapeLexemes ae body := by
      cases ae <;> rfl
    rw [readStringBody_escape hbody, ih h, Reading.merged_after hlast, hmerge]
  | case4 ae rest fault distance herror =>
    rw [readStringBody_escape_error herror]
    rfl
  | case5 ae c rest hquote hslash run rest' hok ih =>
    have hc : isPlain c = true := by
      simp only [isPlain, Bool.and_eq_true, bne_iff_ne]
      exact ⟨hquote, hslash⟩
    obtain ⟨happend, hne⟩ := readContent_ok hok
    have hplain := readContent_plain hok
    have hbody := ih h
    have hrest : rest'.all isPlain = false := by
      by_contra hall
      have hall' : rest'.all isPlain = true := by simpa using hall
      rcases h with hconforms | hfault
      · have hnot := hconforms.not_all_plain hc hok
        rw [← happend, List.all_append, hplain, hall'] at hnot
        cases hnot
      · have hfault' : (readStringBody longestRun false rest').fault? = none := by
          rw [hbody]
          exact hfault
        exact readStringBody_longestRun_fault hall' hfault'
    rw [← happend, readStringBody_run hne hplain hrest, hbody, Reading.merged_after_single]
  | case6 ae c rest hquote hslash fault distance herror =>
    have hc : isPlain c = true := by
      simp only [isPlain, Bool.and_eq_true, bne_iff_ne]
      exact ⟨hquote, hslash⟩
    rcases h with hconforms | hfault
    · rw [readStringBody_content_error hc (hconforms.readContent_error hc herror)]
      rfl
    · cases hfault

theorem readStringBody_last {scanner : Scanner} (ae : Bool) (text : List Char)
    (h : (readStringBody scanner ae text).fault? = none) :
    (readStringBody scanner ae text).lexemes.getLast? = some ⟨.quote, ['"']⟩ := by
  fun_induction readStringBody scanner ae text with
  | case1 => cases h
  | case2 => rfl
  | case3 ae rest body rest' hbody ih => simp [Reading.after, List.getLast?_append, ih h]
  | case4 => cases h
  | case5 ae c rest _ _ run rest' hok ih => simp [Reading.after, List.getLast?_cons, ih h]
  | case6 => cases h

/-- Only a string is read as more than one lexeme. -/
theorem Pattern.read?_single {lexicon : Lexicon} {pattern : Pattern} (hp : pattern ≠ .string)
    {text : List Char} {r : Reading} (h : pattern.read? lexicon text = some r) :
    (∃ first, r = .single pattern.kind first r.rest) ∨
      ∃ fault distance, fault.stage = .lexing ∧ r = .failed fault distance text := by
  cases pattern with
  | blank =>
    simp only [read?, readRun?] at h
    split at h
    · split at h
      · cases h
        exact .inl ⟨_, rfl⟩
      · cases h
    · cases h
  | comment =>
    simp only [read?, readComment?] at h
    split at h
    · cases h
      exact .inl ⟨_, rfl⟩
    · cases h
  | phrase p =>
    simp only [read?, readPhrase?] at h
    split at h
    · cases h
      exact .inl ⟨_, rfl⟩
    · cases h
  | identifier =>
    simp only [read?, readIdentifier?] at h
    split at h
    · split at h
      · cases h
        exact .inl ⟨_, rfl⟩
      · cases h
    · cases h
  | number =>
    simp only [read?, readNumeral?] at h
    split at h
    · split at h
      · cases h
        exact .inl ⟨_, rfl⟩
      · cases h
        exact .inr ⟨_, _, rfl, rfl⟩
    · cases h
  | minus =>
    simp only [read?, readMinus?] at h
    split at h
    · split at h
      · cases h
        exact .inl ⟨_, rfl⟩
      · cases h
    · cases h
  | char =>
    simp only [read?, readChar?] at h
    split at h
    · split at h
      · split at h
        · cases h
          exact .inl ⟨_, rfl⟩
        · cases h
          exact .inr ⟨_, _, rfl, rfl⟩
      · cases h
        exact .inr ⟨_, _, rfl, rfl⟩
    · cases h
  | string => exact absurd rfl hp

namespace Lexicon

variable {lexicon : Lexicon} {text : List Char} {r : Reading}

theorem read_of_none (hne : text ≠ []) (h : lexicon.readNext? text = none) :
    lexicon.read text = .failed (lexicon.unrecognised text) 0 text := by
  rw [read, if_neg hne]
  split <;> simp_all

theorem read_of_next (hne : text ≠ []) (h : lexicon.readNext? text = some r)
    (hfault : r.fault? = none) :
    lexicon.read text = (lexicon.read r.rest).after r.lexemes := by
  rw [read, if_neg hne]
  split <;> simp_all

theorem read_of_fault (hne : text ≠ []) (h : lexicon.readNext? text = some r)
    (hfault : r.fault? ≠ none) : lexicon.read text = r := by
  rw [read, if_neg hne]
  split <;> simp_all

end Lexicon

theorem Lexicon.readNext?_last {scanner : Scanner} {text : List Char} {r : Reading}
    (h : (withScanner scanner).readNext? text = some r) (hfault : r.fault? = none) :
    ∀ l ∈ r.lexemes.getLast?, l.isRun = false := by
  obtain ⟨pattern, hpattern, hr⟩ := List.exists_of_findSome?_eq_some h
  have hkinds : ∀ p ∈ (withScanner scanner).patterns, p.kind ≠ .content := by
    change ∀ p ∈ standard.patterns, p.kind ≠ .content
    decide
  by_cases hstring : pattern = .string
  · subst hstring
    simp only [Pattern.read?, readString?] at hr
    split at hr
    · cases hr
      have hlast := readStringBody_last false _ hfault
      simp [Reading.after, List.getLast?_cons, hlast, Lexeme.isRun]
    · cases hr
  · rcases Pattern.read?_single hstring hr with ⟨first, hsingle⟩ | ⟨fault, distance, _, rfl⟩
    · rw [hsingle]
      simpa [Reading.single, Lexeme.isRun] using hkinds pattern hpattern
    · cases hfault

section Patterns

variable {scanner : Scanner} {pattern : Pattern} {text : List Char}

theorem Pattern.read?_merged {r : Reading}
    (hr : pattern.read? (.withScanner scanner) text = some r)
    (h : scanner.Conforms ∨ r.fault? = none) :
    pattern.read? .standard text = some r.merged := by
  by_cases hstring : pattern = .string
  · subst hstring
    simp only [read?, readString?] at hr ⊢
    split at hr
    · cases hr
      have hbody := readStringBody_merged false _ h
      change some ((readStringBody longestRun false _).after _) = _
      rw [hbody, Reading.merged_after (by simp [Lexeme.isRun])]
      rfl
    · cases hr
  · have hsame : pattern.read? .standard text = some r := by
      rw [← hr]
      cases pattern with
      | string => exact absurd rfl hstring
      | _ => rfl
    have hmerged : r.merged = r := by
      rcases read?_single hstring hr with ⟨first, hsingle⟩ | ⟨fault, distance, _, rfl⟩
      · rw [hsingle]
        rfl
      · rfl
    rw [hsame, hmerged]

theorem Pattern.read?_eq_none_of_scanner (h : pattern.read? (.withScanner scanner) text = none) :
    pattern.read? .standard text = none := by
  cases pattern with
  | string =>
    simp only [read?, readString?] at h ⊢
    split at h
    · cases h
    · rfl
  | _ => exact h

end Patterns

namespace Lexicon

variable {scanner : Scanner} {text : List Char}

theorem readNext?_merged {r : Reading} (hr : (withScanner scanner).readNext? text = some r)
    (h : scanner.Conforms ∨ r.fault? = none) : standard.readNext? text = some r.merged := by
  obtain ⟨before, pattern, after, hsplit, hpattern, hbefore⟩ := List.findSome?_eq_some_iff.mp hr
  refine List.findSome?_eq_some_iff.mpr ⟨before, pattern, after, hsplit, ?_, ?_⟩
  · exact pattern.read?_merged hpattern h
  · exact fun q hq => q.read?_eq_none_of_scanner (hbefore q hq)

theorem readNext?_eq_none_of_scanner (h : (withScanner scanner).readNext? text = none) :
    standard.readNext? text = none := by
  rw [readNext?, List.findSome?_eq_none_iff] at h ⊢
  exact fun q hq => q.read?_eq_none_of_scanner (h q hq)

theorem read_merged (h : scanner.Conforms ∨ ((withScanner scanner).read text).fault? = none) :
    standard.read text = ((withScanner scanner).read text).merged := by
  fun_induction Lexicon.read (withScanner scanner) text with
  | case1 =>
    rw [read, if_pos rfl]
    rfl
  | case2 text hne hnone =>
    rw [read_of_none hne (readNext?_eq_none_of_scanner hnone)]
    rfl
  | case3 text hne r hr hfault ih =>
    have hnext := readNext?_merged hr (.inr hfault)
    rw [read_of_next hne hnext hfault, Reading.merged_after (readNext?_last hr hfault)]
    exact congrArg _ (ih h)
  | case4 text hne r hr hfault =>
    have hconforms : scanner.Conforms := h.resolve_right hfault
    exact read_of_fault hne (readNext?_merged hr (.inl hconforms)) hfault

end Lexicon

/-- The scanner that takes one character at a time. -/
def singleRun : Scanner := fun text =>
  if text.all isPlain then none else some (byteLength (text.take 1))

theorem singleRun_conforms : singleRun.Conforms where
  none_iff c rest _ := by
    rw [← all_isPlain_iff, singleRun]
    by_cases h : (c :: rest).all isPlain = true <;> simp [h]
  positive c rest n _ hn := by
    have hc := c.utf8Size_pos
    by_cases h : (c :: rest).all isPlain = true
    · simp [singleRun, h] at hn
    · have hlength : byteLength [c] = n := by simpa [singleRun, h] using hn
      rw [byteLength] at hlength
      omega
  boundary c rest n _ hn := by
    by_cases h : (c :: rest).all isPlain = true
    · simp [singleRun, h] at hn
    · have hlength : byteLength [c] = n := by simpa [singleRun, h] using hn
      have hsplit : splitAtByte? (byteLength [c]) (c :: rest) = some ([c], rest) :=
        splitAtByte?_byteLength [c] rest
      rw [← hlength, hsplit]
      rfl
  within c rest n hc hn := by
    by_cases h : (c :: rest).all isPlain = true
    · simp [singleRun, h] at hn
    · have hlength : byteLength [c] = n := by simpa [singleRun, h] using hn
      rw [← hlength, List.takeWhile_cons_of_pos hc]
      exact byteLength_le_of_prefix ⟨rest.takeWhile isPlain, rfl⟩

theorem Lexicon.readTokens_merged {scanner : Scanner} {source : String} (label? : Option String)
    (h : scanner.Conforms ∨ ((withScanner scanner).read source.toList).fault? = none) :
    standard.readTokens source label? =
      ((withScanner scanner).readTokens source label?).map mergeTokens := by
  have hread := read_merged h
  have htext : textOf (standard.read source.toList).lexemes =
      textOf ((withScanner scanner).read source.toList).lexemes := by
    rw [hread]
    exact textOf_mergeLexemes _
  cases hfault : ((withScanner scanner).read source.toList).fault? with
  | none =>
    have hfault' : (standard.read source.toList).fault? = none := by
      rw [hread]
      exact hfault
    have hclosed : mergeLexemes (((withScanner scanner).read source.toList).lexemes ++
        [⟨.endOfInput, []⟩]) = (standard.read source.toList).lexemes ++ [⟨.endOfInput, []⟩] := by
      rw [hread]
      exact mergeLexemes_append_single _ rfl
    rw [readTokens, readTokens, readAt_of_none _ _ hfault, readAt_of_none _ _ hfault']
    simp only [Except.map]
    rw [← placeAll_append_end, ← placeAll_append_end, mergeTokens_placeAll, hclosed]
  | some d =>
    have hfault' : (standard.read source.toList).fault? = some d := by
      rw [hread]
      exact hfault
    rw [readTokens, readTokens, readAt_of_some _ _ hfault, readAt_of_some _ _ hfault', htext]
    rfl

/-- How a scanner cuts the plain text of strings does not matter once neighbouring runs are merged:
where it succeeds, and also where it fails if it does what is asked of it. -/
theorem readTokens_scanner_independent (scanner : Scanner) (source : String)
    (label? : Option String) :
    (∀ tokens, (Lexicon.withScanner scanner).readTokens source label? = .ok tokens →
      Lexicon.standard.readTokens source label? = .ok (mergeTokens tokens)) ∧
    (scanner.Conforms →
      ((Lexicon.withScanner scanner).readTokens source label?).map mergeTokens =
        Lexicon.standard.readTokens source label?) := by
  constructor
  · intro tokens htokens
    have hfault := Lexicon.fault?_of_readTokens htokens
    rw [Lexicon.readTokens_merged label? (.inr hfault), htokens]
    rfl
  · exact fun hconforms => (Lexicon.readTokens_merged label? (.inl hconforms)).symm

/-- One byte at a time is no answer in front of `é`, but will do for `ab`; one character at a time
will do for every source, also for one with a wrong escape. -/
theorem short_runs_merge :
    (∃ tokens, (Lexicon.withScanner fun _ => some 1).readTokens "\"ab\\n\\t\"" none = .ok tokens ∧
      Lexicon.standard.readTokens "\"ab\\n\\t\"" none = .ok (mergeTokens tokens)) ∧
    singleRun.Conforms ∧
    ((Lexicon.withScanner singleRun).readTokens "\"éa\\xZ" none).map mergeTokens =
      Lexicon.standard.readTokens "\"éa\\xZ" none := by
  have hok : ((Lexicon.withScanner fun _ => some 1).readTokens "\"ab\\n\\t\"" none).isOk =
      true := by decide +kernel
  have hfirst := (readTokens_scanner_independent (fun _ => some 1) "\"ab\\n\\t\"" none).1
  have hsecond := (readTokens_scanner_independent singleRun "\"éa\\xZ" none).2
  refine ⟨?_, singleRun_conforms, hsecond singleRun_conforms⟩
  obtain ⟨tokens, htokens⟩ := exists_of_isOk hok
  exact ⟨tokens, htokens, hfirst tokens htokens⟩

end HslTree
