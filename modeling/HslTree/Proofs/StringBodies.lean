import Mathlib.Data.List.SplitBy
import HslTree.Proofs.Reach

/-! Bodies of strings, read from the left as units as far as there are any. What the units end at
decides how the reading ends: a quote closes the string, a backslash in front of something else than
an escape is a fault, and so is the end of the text. -/

namespace HslTree

/-- A text read from the left as units, and what they end at. -/
structure ReadAsUnits (text : List Char) (units : List StringUnit) (ending : List Char) : Prop where
  split : text = StringUnit.textOf units ++ ending
  stuck : ∀ (unit : StringUnit) (rest : List Char), ending ≠ unit.text ++ rest

section Units

variable {text ending ending' after : List Char} {units units' : List StringUnit}

/-- No unit is the beginning of another. -/
theorem StringUnit.eq_of_append {u v : StringUnit} {s t : List Char}
    (h : u.text ++ s = v.text ++ t) : u = v ∧ s = t := by
  have hslash : isPlain '\\' = false := by decide
  cases u with
  | plain c hc =>
    cases v with
    | plain d hd =>
      obtain ⟨rfl, rfl⟩ := List.cons.inj h
      exact ⟨rfl, rfl⟩
    | escape body hbody =>
      obtain ⟨rfl, _⟩ := List.cons.inj h
      rw [hslash] at hc
      cases hc
  | escape body hbody =>
    cases v with
    | plain d hd =>
      obtain ⟨rfl, _⟩ := List.cons.inj h
      rw [hslash] at hd
      cases hd
    | escape body' hbody' =>
      have hbodies : body ++ s = body' ++ t := (List.cons.inj h).2
      have hread := hbody.readEscape? s
      rw [hbodies, hbody'.readEscape? t] at hread
      cases hread
      exact ⟨rfl, rfl⟩

namespace ReadAsUnits

theorem eq_nil (h : ReadAsUnits text [] ending) (h' : ReadAsUnits text units ending') :
    units = [] := by
  cases units with
  | nil => rfl
  | cons v units =>
    have htext : ending = v.text ++ (StringUnit.textOf units ++ ending') := by
      rw [← List.append_assoc]
      exact h.split.symm.trans h'.split
    exact absurd htext (h.stuck v _)

/-- There is one way to read a text as units. -/
theorem unique (h : ReadAsUnits text units ending) (h' : ReadAsUnits text units' ending') :
    units = units' ∧ ending = ending' := by
  induction units generalizing text units' with
  | nil =>
    obtain rfl := h.eq_nil h'
    exact ⟨rfl, h.split.symm.trans h'.split⟩
  | cons u units ih =>
    cases units' with
    | nil => cases h'.eq_nil h
    | cons v units' =>
      have htext := h.split.symm.trans h'.split
      rw [StringUnit.textOf_cons, StringUnit.textOf_cons, List.append_assoc,
        List.append_assoc] at htext
      obtain ⟨rfl, hrest⟩ := StringUnit.eq_of_append htext
      obtain ⟨rfl, rfl⟩ := ih ⟨rfl, h.stuck⟩ ⟨hrest, h'.stuck⟩
      exact ⟨rfl, rfl⟩

theorem prepend (h : ReadAsUnits text units ending) (first : List StringUnit) :
    ReadAsUnits (StringUnit.textOf first ++ text) (first ++ units) ending where
  split := by rw [h.split, StringUnit.textOf_append, List.append_assoc]
  stuck := h.stuck

theorem of_quote (rest : List Char) : ReadAsUnits ('"' :: rest) [] ('"' :: rest) where
  split := rfl
  stuck unit tail h := by
    cases unit with
    | plain c hc =>
      obtain ⟨rfl, _⟩ := List.cons.inj h
      cases hc
    | escape => cases h

theorem of_nil : ReadAsUnits [] [] [] where
  split := rfl
  stuck unit tail h := by cases unit <;> cases h

theorem of_slash (h : ∀ parts, readEscape? after ≠ some parts) :
    ReadAsUnits ('\\' :: after) [] ('\\' :: after) where
  split := rfl
  stuck unit tail htext := by
    cases unit with
    | plain c hc =>
      obtain ⟨rfl, _⟩ := List.cons.inj htext
      cases hc
    | escape body hbody =>
      obtain ⟨_, rfl⟩ := List.cons.inj htext
      exact h _ (hbody.readEscape? tail)

theorem no_escape (h : ReadAsUnits text units ('\\' :: after)) :
    ∀ parts, readEscape? after ≠ some parts := by
  rintro ⟨body, rest⟩ hbody
  have htext : '\\' :: after = '\\' :: body ++ rest :=
    congrArg ('\\' :: ·) (append_of_readEscape? hbody).1.symm
  exact h.stuck (.escape body (isEscape_of_readEscape? hbody)) rest htext

end ReadAsUnits

end Units

section Endings

variable {r : Reading} {text ending : List Char} {fault : Fault} {distance : Nat}

theorem readEscape_error_cases (h : readEscape text = .error (fault, distance)) :
    (∀ parts, readEscape? text ≠ some parts) ∧
      (text = [] ∧ fault = .unterminatedString ∧ distance = 1 ∨
        text ≠ [] ∧ distance = 1 + byteLength (escapeStem text) ∧
          fault = .malformedEscape (String.ofList
            ('\\' :: escapeStem text ++ (text.drop (escapeStem text).length).take 1))) := by
  unfold readEscape at h
  split at h
  · cases h
  · rename_i hnone
    refine ⟨fun parts hparts => by simp [hparts] at hnone, ?_⟩
    split at h
    · rename_i hnil
      cases h
      exact .inl ⟨hnil, rfl, rfl⟩
    · rename_i hne
      cases h
      exact .inr ⟨hne, rfl, rfl⟩

theorem readContent_longestRun_error {c : Char} (hc : isPlain c = true) {rest : List Char}
    (h : readContent longestRun (c :: rest) = .error (fault, distance)) :
    (c :: rest).all isPlain = true ∧ fault = .unterminatedString ∧
      distance = byteLength (c :: rest) := by
  by_cases hall : (c :: rest).all isPlain = true
  · simp only [readContent, longestRun, hall, if_true] at h
    cases h
    exact ⟨hall, rfl, rfl⟩
  · have hrest : rest.all isPlain = false := by simpa [hc] using hall
    have hok := readContent_longestRun (List.cons_ne_nil c []) (by simpa using hc) hrest
    rw [List.singleton_append, h] at hok
    cases hok

/-- How the reading of a body ends, by what its units end at. -/
inductive Reading.EndsAt (r : Reading) : List Char → Prop
  | quote {rest : List Char} (hfault : r.fault? = none) (hrest : r.rest = rest) :
      EndsAt r ('"' :: rest)
  | wrong {after : List Char} (hne : after ≠ []) (hrest : r.rest = '\\' :: after)
      (hfault : r.fault? = some (.malformedEscape (String.ofList ('\\' :: escapeStem after ++
        (after.drop (escapeStem after).length).take 1)), 1 + byteLength (escapeStem after))) :
      EndsAt r ('\\' :: after)
  | missing {ending : List Char} (hending : ending = [] ∨ ending = ['\\'])
      (hfault : r.fault? = some (.unterminatedString, byteLength r.rest)) : EndsAt r ending

theorem Reading.EndsAt.after (h : r.EndsAt ending) (ls : List Lexeme) :
    (r.after ls).EndsAt ending := by
  cases h with
  | quote hfault hrest => exact .quote hfault hrest
  | wrong hne hrest hfault => exact .wrong hne hrest hfault
  | missing hending hfault => exact .missing hending hfault

theorem readStringBody_ends (ae : Bool) (text : List Char) :
    ∃ units ending, ReadAsUnits text units ending ∧
      (readStringBody longestRun ae text).EndsAt ending := by
  fun_induction readStringBody longestRun ae text with
  | case1 => exact ⟨[], [], .of_nil, .missing (.inl rfl) rfl⟩
  | case2 ae rest => exact ⟨[], '"' :: rest, .of_quote rest, .quote rfl rfl⟩
  | case3 ae rest body rest' hbody ih =>
    obtain ⟨units, ending, hunits, hends⟩ := ih
    have hunit := hunits.prepend [.escape body (isEscape_of_readEscape hbody)]
    rw [← readEscape_ok hbody]
    exact ⟨_, ending, by simpa [StringUnit.textOf, StringUnit.text] using hunit, hends.after _⟩
  | case4 ae rest fault distance herror =>
    obtain ⟨hnone, hcases⟩ := readEscape_error_cases herror
    refine ⟨[], '\\' :: rest, .of_slash hnone, ?_⟩
    rcases hcases with ⟨rfl, rfl, rfl⟩ | ⟨hne, rfl, rfl⟩
    · exact .missing (.inr rfl) rfl
    · exact .wrong hne rfl rfl
  | case5 ae c rest _ _ run rest' hok ih =>
    obtain ⟨units, ending, hunits, hends⟩ := ih
    obtain ⟨first, hfirst⟩ := exists_units_of_plain (readContent_plain hok)
    have hrun := hunits.prepend first
    rw [hfirst, (readContent_ok hok).1] at hrun
    exact ⟨first ++ units, ending, hrun, hends.after _⟩
  | case6 ae c rest hquote hslash fault distance herror =>
    have hc : isPlain c = true := by
      simp only [isPlain, Bool.and_eq_true, bne_iff_ne]
      exact ⟨hquote, hslash⟩
    -- Nothing but plain characters is left, and all of them are units.
    obtain ⟨hall, rfl, rfl⟩ := readContent_longestRun_error hc herror
    obtain ⟨units, hunits⟩ := exists_units_of_plain hall
    have hrun := ReadAsUnits.of_nil.prepend units
    rw [hunits, List.append_nil, List.append_nil] at hrun
    exact ⟨units, [], hrun, .missing (.inl rfl) rfl⟩

end Endings

namespace StringUnit

def isCharacter : StringUnit → Bool
  | plain .. => true
  | escape .. => false

/-- Plain characters in stretches as long as possible, and each escape on its own. -/
def stretches (units : List StringUnit) : List (List StringUnit) :=
  units.splitBy fun u v => u.isCharacter && v.isCharacter

def stretchLexeme (stretch : List StringUnit) : Lexeme :=
  ⟨if stretch.all isCharacter then .content else .escape, textOf stretch⟩

/-- Puts an empty run between any two escapes that are neighbours. -/
def separated : List Lexeme → List Lexeme
  | l :: m :: rest =>
    if l.kind = .escape ∧ m.kind = .escape then l :: ⟨.content, []⟩ :: separated (m :: rest)
    else l :: separated (m :: rest)
  | ls => ls

/-- The lexemes of a body: a run for each stretch of plain characters, each escape, and an empty run
between two escapes that have nothing between them. -/
def bodyLexemes (units : List StringUnit) : List Lexeme :=
  separated ((stretches units).map stretchLexeme)

section Stretches

variable {rest run : List StringUnit}

def startsWithEscape (units : List StringUnit) : Bool := units.head?.any (!·.isCharacter)

/-- Units are made up of escapes and of stretches that nothing plain follows. -/
@[elab_as_elim]
theorem stretch_induction {P : List StringUnit → Prop} (nil : P [])
    (escape : ∀ body hbody rest, P rest → P (escape body hbody :: rest))
    (run : ∀ run rest, run ≠ [] → (∀ u ∈ run, u.isCharacter = true) →
      (∀ u ∈ rest.head?, u.isCharacter = false) → P rest → P (run ++ rest))
    (units : List StringUnit) : P units := by
  induction hn : units.length using Nat.strong_induction_on generalizing units with
  | _ n ih =>
    subst hn
    cases units with
    | nil => exact nil
    | cons unit units =>
      cases unit with
      | escape body hbody => exact escape body hbody units (ih _ (by simp) _ rfl)
      | plain c hc =>
        have hshorter : (units.dropWhile isCharacter).length < (plain c hc :: units).length :=
          Nat.lt_succ_of_le (List.dropWhile_suffix _).length_le
        have hall : ∀ u ∈ plain c hc :: units.takeWhile isCharacter, u.isCharacter = true := by
          intro u hu
          rcases List.mem_cons.mp hu with rfl | hu
          · rfl
          · exact List.mem_takeWhile_imp hu
        have hsplit := run (plain c hc :: units.takeWhile isCharacter) _ (by simp) hall
          (head?_dropWhile _ _) (ih _ hshorter _ rfl)
        rwa [List.cons_append, List.takeWhile_append_dropWhile] at hsplit

theorem stretches_escape (body : List Char) (hbody : IsEscape body) (rest : List StringUnit) :
    stretches (escape body hbody :: rest) = [escape body hbody] :: stretches rest := by
  have happend : ([escape body hbody] ++ rest).splitBy (fun u v => u.isCharacter && v.isCharacter) =
      [escape body hbody].splitBy _ ++ rest.splitBy _ :=
    List.splitBy_append (by simp [isCharacter])
  exact happend

theorem stretches_run (hne : run ≠ []) (hrun : ∀ u ∈ run, u.isCharacter = true)
    (hrest : ∀ u ∈ rest.head?, u.isCharacter = false) :
    stretches (run ++ rest) = run :: stretches rest := by
  have hchain : run.IsChain fun u v => (u.isCharacter && v.isCharacter) = true := by
    refine (List.pairwise_of_forall_mem_list fun u hu v hv => ?_).isChain
    rw [hrun u hu, hrun v hv]
    rfl
  rw [stretches, List.splitBy_append, List.splitBy_of_isChain hne hchain]
  · rfl
  · intro u _ v hv
    simp [hrest v hv]

theorem stretchLexeme_escape (body : List Char) (hbody : IsEscape body) :
    stretchLexeme [escape body hbody] = ⟨.escape, '\\' :: body⟩ := by
  simp [stretchLexeme, isCharacter, textOf, text]

theorem stretchLexeme_run (hrun : ∀ u ∈ run, u.isCharacter = true) :
    stretchLexeme run = ⟨.content, textOf run⟩ := by
  rw [stretchLexeme, if_pos (List.all_eq_true.mpr hrun)]

def separator (apart : Bool) : List Lexeme := if apart then [⟨.content, []⟩] else []

theorem separated_cons (l : Lexeme) (ms : List Lexeme) :
    separated (l :: ms) =
      l :: (separator (l.kind == .escape && ms.head?.any (·.kind == .escape)) ++ separated ms) := by
  cases ms with
  | nil => simp [separated, separator]
  | cons m ms =>
    by_cases h : l.kind = .escape ∧ m.kind = .escape
    · simp [separated, separator, h]
    · have hkinds : (l.kind == .escape && m.kind == .escape) = false := by simpa using h
      simp [separated, separator, h, hkinds]

theorem head_stretches (units : List StringUnit) :
    ((stretches units).map stretchLexeme).head?.any (·.kind == .escape) =
      startsWithEscape units := by
  induction units using stretch_induction with
  | nil => rfl
  | escape body hbody rest _ =>
    rw [stretches_escape, List.map_cons, stretchLexeme_escape]
    rfl
  | run run rest hne hrun hrest _ =>
    rw [stretches_run hne hrun hrest, List.map_cons, stretchLexeme_run hrun]
    cases run with
    | nil => exact absurd rfl hne
    | cons u run => simp [startsWithEscape, hrun u (by simp)]

theorem lexemes_escape (body : List Char) (hbody : IsEscape body) (rest : List StringUnit) :
    lexemes (escape body hbody :: rest) =
      ⟨.escape, '\\' :: body⟩ :: mergeLexemes (pieces true rest) :=
  glue_of_not_run rfl _

theorem merge_pieces_true (units : List StringUnit) :
    mergeLexemes (pieces true units) = separator (startsWithEscape units) ++ lexemes units := by
  cases units with
  | nil => rfl
  | cons unit units =>
    cases unit with
    | plain c hc => rfl
    | escape body hbody =>
      -- The empty run in front of the escape has no run behind it to be merged with.
      have hempty : mergeLexemes (pieces true (escape body hbody :: units)) =
          glue Lexeme.isRun Lexeme.join ⟨.content, []⟩ (lexemes (escape body hbody :: units)) := rfl
      rw [hempty, lexemes_escape]
      rfl

theorem head_lexemes (hrest : ∀ u ∈ rest.head?, u.isCharacter = false) :
    ∀ l ∈ (lexemes rest).head?, l.isRun = false := by
  cases rest with
  | nil => simp [lexemes, pieces, mergeLexemes, mergeRuns]
  | cons unit rest =>
    cases unit with
    | plain c hc => cases hrest _ rfl
    | escape body hbody =>
      rw [lexemes_escape]
      simp [Lexeme.isRun]

theorem lexemes_run (hne : run ≠ []) (hrun : ∀ u ∈ run, u.isCharacter = true)
    (hrest : ∀ u ∈ rest.head?, u.isCharacter = false) :
    lexemes (run ++ rest) = ⟨.content, textOf run⟩ :: lexemes rest := by
  induction run with
  | nil => exact absurd rfl hne
  | cons u run ih =>
    cases u with
    | escape body hbody => exact absurd (hrun _ List.mem_cons_self) Bool.false_ne_true
    | plain c hc =>
      change glue Lexeme.isRun Lexeme.join ⟨.content, [c]⟩ (lexemes (run ++ rest)) = _
      by_cases hnil : run = []
      · subst hnil
        exact glue_of_head (head_lexemes hrest)
      · rw [ih hnil fun v hv => hrun v (by simp [hv])]
        rfl

theorem lexemes_eq_bodyLexemes (units : List StringUnit) : lexemes units = bodyLexemes units := by
  rw [bodyLexemes]
  induction units using stretch_induction with
  | nil => rfl
  | escape body hbody rest ih =>
    rw [lexemes_escape, merge_pieces_true, ih, stretches_escape, List.map_cons, separated_cons,
      stretchLexeme_escape, head_stretches]
    rfl
  | run run rest hne hrun hrest ih =>
    rw [lexemes_run hne hrun hrest, ih, stretches_run hne hrun hrest, List.map_cons,
      separated_cons, stretchLexeme_run hrun]
    rfl

end Stretches

end StringUnit

section Runs

variable {s : Session} {text body rest : List Char} {ls : List Lexeme}

theorem Lexicon.readNext?_quote (body : List Char) :
    standard.readNext? ('"' :: body) =
      some ((readStringBody longestRun false body).after [⟨.quote, ['"']⟩]) := by
  have hread : Pattern.string.read? standard ('"' :: body) =
      some ((readStringBody longestRun false body).after [⟨.quote, ['"']⟩]) := rfl
  exact (withScanner_orderly longestRun).readNext?_of_read? (by decide) hread (by simp)

theorem Lexicon.Reaches.string {units : List StringUnit}
    (h : standard.Reaches text ls ('"' :: (StringUnit.textOf units ++ '"' :: rest))) :
    standard.Reaches text (ls ++ stringLexemes units) rest :=
  h.step ((readNext?_quote _).trans (readString?_units units rest)) rfl

/-- A string is read by its grammar. From an opening quote the text is taken as units as far as it
goes. If they end at a quote, the lexemes are the quotes and between them a run for each stretch of
plain characters, each escape, and an empty run between two escapes in a row. If they end at a
backslash that starts no escape, that is the fault; if they end at the end of the source or at a
backslash that is its last character, the string is unterminated. -/
theorem Session.strings_read_by_units (hlexicon : s.lexicon = .standard)
    (hunread : s.unread? = some text)
    (hreach : Lexicon.standard.Reaches text ls ('"' :: body)) :
    ∃ units ending s' x?, ReadAsUnits body units ending ∧
      (∀ units' ending', ReadAsUnits body units' ending' → units' = units ∧ ending' = ending) ∧
      s.run? = some (s', x?) ∧
      ((∃ rest ms, ending = '"' :: rest ∧
          ms = ⟨.quote, ['"']⟩ :: (StringUnit.bodyLexemes units ++ [⟨.quote, ['"']⟩]) ∧
          Lexicon.standard.Reaches text (ls ++ ms) rest ∧
          s.tokens ++ placeAll s.file s.cursor (ls ++ ms) <+: s'.tokens) ∨
        (∃ after wrong position, ending = '\\' :: after ∧ after ≠ [] ∧
          x? = some ⟨.malformedEscape wrong, position⟩) ∨
        ((ending = [] ∨ ending = ['\\']) ∧
          x? = some ⟨.unterminatedString, .at s.file (byteLength s.source.toList)⟩)) := by
  obtain ⟨units, ending, hunits, hends⟩ := readStringBody_ends false body
  have hunique := fun units' ending' (h : ReadAsUnits body units' ending') => h.unique hunits
  have hnext := Lexicon.readNext?_quote body
  have hreach' : s.lexicon.Reaches text ls ('"' :: body) := hlexicon ▸ hreach
  have hnext' := hlexicon ▸ hnext
  cases hends.after [⟨.quote, ['"']⟩] with
  | @quote rest hfault hrest =>
    rw [hunits.split] at hreach
    have hbehind := hreach.string
    rw [stringLexemes, StringUnit.lexemes_eq_bodyLexemes] at hbehind
    obtain ⟨s', x?, hrun, htokens⟩ := tokens_of_reaches hunread (hlexicon ▸ hbehind)
    exact ⟨units, _, s', x?, hunits, hunique, hrun, .inl ⟨rest, _, rfl, rfl, hbehind, htokens⟩⟩
  | @wrong after hne hrest hfault =>
    have hrun := run?_of_reached_fault hunread hreach' (by simp) hnext' hfault
    exact ⟨units, _, _, _, hunits, hunique, hrun, .inr (.inl ⟨after, _, _, rfl, hne, rfl⟩)⟩
  | missing hending hfault =>
    have hrun := run?_of_reached_fault hunread hreach' (by simp) hnext' hfault
    refine ⟨units, _, _, _, hunits, hunique, hrun, .inr (.inr ⟨hending, ?_⟩)⟩
    -- What was read and what is left make up the text behind the cursor.
    have hcovers := (Lexicon.readNext?_covers Lexicon.standard_kinds hnext).text
    have hsource := byteLength_source hunread
    rw [← hreach.text_eq, ← hcovers] at hsource
    simp only [textOf_append, byteLength_append] at hsource ⊢
    rw [hsource]
    congr 3
    omega

theorem Session.escapes_in_a_row_read :
    Lexicon.standard.Reaches "f \"\\n\\t\"".toList [⟨.identifier, ['f']⟩, ⟨.blank, [' ']⟩]
      "\"\\n\\t\"".toList ∧
    ∃ s' x?, (Session.start .standard "f \"\\n\\t\"" "f").run? = some (s', x?) ∧
      placeAll "f" 0 [⟨.identifier, ['f']⟩, ⟨.blank, [' ']⟩, ⟨.quote, ['"']⟩,
        ⟨.escape, ['\\', 'n']⟩, ⟨.content, []⟩, ⟨.escape, ['\\', 't']⟩, ⟨.quote, ['"']⟩] <+:
        s'.tokens := by
  have hreach : Lexicon.standard.Reaches "f \"\\n\\t\"".toList
      [⟨.identifier, ['f']⟩, ⟨.blank, [' ']⟩] ('"' :: "\\n\\t\"".toList) :=
    .step (r := .single .blank [' '] "\"\\n\\t\"".toList)
      (.step (r := .single .identifier ['f'] " \"\\n\\t\"".toList) .start (by decide +kernel) rfl)
      (by decide +kernel) rfl
  refine ⟨hreach, ?_⟩
  have hunits : ReadAsUnits "\\n\\t\"".toList [.escape ['n'] (by decide), .escape ['t'] (by decide)]
      ['"'] := (ReadAsUnits.of_quote []).prepend [.escape ['n'] _, .escape ['t'] _]
  obtain ⟨units, ending, s', x?, _, hunique, hrun, hcases⟩ :=
    Session.strings_read_by_units (s := .start .standard "f \"\\n\\t\"" "f") rfl (by decide) hreach
  obtain ⟨rfl, rfl⟩ := hunique _ _ hunits
  obtain ⟨rest, ms, _, rfl, _, htokens⟩ | ⟨_, _, _, hslash, _⟩ | ⟨hnil | hslash, _⟩ := hcases
  · exact ⟨s', x?, hrun, htokens⟩
  · cases hslash
  · cases hnil
  · cases hslash

end Runs

end HslTree
