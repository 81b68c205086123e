import HslTree.Proofs.Gaps
import HslTree.Proofs.Regraft

/-! Reformatting is safe: when each blank of a source gives way to another one that starts with a
line feed, the source keeps its other tokens and the shape of its tree. -/

namespace HslTree

/-- A text that may stand in place of a token. -/
def Token.Respaces (token : Token) (text : String) : Prop :=
  if token.kind = .blank then isGap text.toList = true else text = token.value

instance (token : Token) (text : String) : Decidable (token.Respaces text) :=
  inferInstanceAs (Decidable (if token.kind = .blank then isGap text.toList = true else
    text = token.value))

/-- What the tokens that are not blank are and say, comments included. -/
def solidTokens (tokens : List Token) : List (Kind × String) :=
  (tokens.filter (·.kind ≠ .blank)).map fun token => (token.kind, token.value)

section Lexemes

variable {file : String} {ls ms : List Lexeme}

theorem exists_lexemes_of_respaces {a : Nat} {texts : List String}
    (h : List.Forall₂ Token.Respaces (placeAll file a ls) texts) :
    ∃ ms, List.Forall₂ Lexeme.Respaces ls ms ∧
      ∀ b, (placeAll file b ms).map (·.value) = texts := by
  induction ls generalizing a texts with
  | nil =>
    obtain rfl := List.forall₂_nil_left_iff.mp h
    exact ⟨[], .nil, fun _ => rfl⟩
  | cons l ls ih =>
    obtain ⟨text, texts, htext, htexts, rfl⟩ := List.forall₂_cons_left_iff.mp h
    obtain ⟨ms, hms, hvalues⟩ := ih htexts
    obtain ⟨kind, value⟩ := l
    by_cases hblank : kind = .blank
    · subst hblank
      refine ⟨⟨.blank, text.toList⟩ :: ms, .cons (.gap htext) hms, fun b => ?_⟩
      simp [placeAll, Lexeme.place, hvalues]
    · have hsame : text = String.ofList value := by
        simpa [Token.Respaces, Lexeme.place, hblank] using htext
      refine ⟨⟨kind, value⟩ :: ms, .cons (.same hblank) hms, fun b => ?_⟩
      simp [placeAll, Lexeme.place, hvalues, hsame]

theorem kinds_of_respaces (h : List.Forall₂ Lexeme.Respaces ls ms) (a b : Nat) :
    (placeAll file a ms).map (Token.ofKind ·.kind) =
      (placeAll file b ls).map (Token.ofKind ·.kind) := by
  induction h generalizing a b with
  | nil => rfl
  | cons hl _ ih => cases hl <;> simpa [placeAll, Lexeme.place] using ih _ _

theorem solidTokens_of_respaces (h : List.Forall₂ Lexeme.Respaces ls ms) (a b : Nat) :
    solidTokens (placeAll file a ms) = solidTokens (placeAll file b ls) := by
  induction h generalizing a b with
  | nil => rfl
  | cons hl _ ih =>
    cases hl with
    | gap => simpa [solidTokens, placeAll, Lexeme.place] using ih _ _
    | same hl => simpa [solidTokens, placeAll, Lexeme.place, hl] using ih _ _

theorem solidTokens_append (ts us : List Token) :
    solidTokens (ts ++ us) = solidTokens ts ++ solidTokens us := by
  simp [solidTokens]

end Lexemes

namespace Lexicon

variable {label? : Option String}

theorem readTokens_of_read {source : String} {ls : List Lexeme}
    (h : standard.read source.toList = ⟨ls, [], none⟩) :
    standard.readTokens source label? =
      .ok (placeAll (label?.getD defaultLabel) 0 ls ++
        [.endAt (.at (label?.getD defaultLabel) (byteLength (textOf ls)))]) := by
  have hfault : (standard.read source.toList).fault? = none := by rw [h]
  rw [readTokens, readAt_of_none _ _ hfault, h, Nat.zero_add]

theorem read_of_readTokens {source : String} {tokens : List Token}
    (h : standard.readTokens source label? = .ok tokens) :
    ∃ ls, standard.read source.toList = ⟨ls, [], none⟩ ∧
      tokens = placeAll (label?.getD defaultLabel) 0 ls ++
        [.endAt (.at (label?.getD defaultLabel) (byteLength (textOf ls)))] := by
  have hfault := fault?_of_readTokens h
  have hread : standard.read source.toList =
      ⟨(standard.read source.toList).lexemes, [], none⟩ := by
    rw [← read_rest hfault, ← hfault]
  have hok := h.symm.trans (readTokens_of_read hread)
  exact ⟨_, hread, Except.ok.inj hok⟩

end Lexicon

/-- A source stays what it is when its blanks are replaced, each by blanks that start with a line
feed: the new texts are the texts of its tokens. -/
theorem readTree_of_respaced_source {source : String} {label? : Option String} {tree : Tree}
    (htree : Lexicon.standard.readTree source label? = .ok tree) {tokens : List Token}
    (htokens : Lexicon.standard.readTokens source label? = .ok tokens) {texts : List String}
    (h : List.Forall₂ Token.Respaces tokens texts) :
    ∃ tree' tokens', Lexicon.standard.readTree (String.join texts) label? = .ok tree' ∧
      Lexicon.standard.readTokens (String.join texts) label? = .ok tokens' ∧
      tokens'.map (·.value) = texts ∧ solidTokens tokens' = solidTokens tokens ∧
      tree'.sexp = tree.sexp := by
  obtain ⟨ls, hread, rfl⟩ := Lexicon.read_of_readTokens htokens
  obtain ⟨ls', _, hrun, hderivation, hroot, hleaves⟩ := Lexicon.readTree_ok htree
  have hplaced := (List.append_inj' (Except.ok.inj (hrun.symm.trans htokens)) rfl).1
  obtain ⟨us, vs, rfl, hus, hvs⟩ := forall₂_append_left h
  obtain ⟨ms, hms, hvalues⟩ := exists_lexemes_of_respaces hus
  obtain rfl : vs = [""] := by
    obtain ⟨text, rest, htext, hrest, rfl⟩ := List.forall₂_cons_left_iff.mp hvs
    obtain rfl := List.forall₂_nil_left_iff.mp hrest
    obtain rfl : text = "" := htext
    rfl
  have htext : String.join (us ++ [""]) = String.ofList (textOf ms) := by
    rw [← hvalues 0, String.join_append, values_placeAll]
    simp
  obtain ⟨hread', _⟩ := Lexicon.read_respaced (by rw [hread]) (by rwa [hread])
  have hkinds : ∀ t : Token, (Token.ofKind t.kind).kind = t.kind := fun _ => rfl
  have hleaves' : (placeAll (label?.getD defaultLabel) 0 ms).map (Token.ofKind ·.kind) =
      tree.tokens.map (Token.ofKind ·.kind) := by
    rw [hleaves, hplaced]
    exact kinds_of_respaces hms 0 0
  obtain ⟨tree', htree', hsame⟩ :=
    Lexicon.readTree_of_lexemes hread' hkinds hderivation hroot hleaves'
  rw [← htext] at htree'
  rw [← String.toList_ofList (l := textOf ms), ← htext] at hread'
  refine ⟨tree', _, htree', Lexicon.readTokens_of_read hread', ?_, ?_, ?_⟩
  · rw [List.map_append, hvalues]
    rfl
  · rw [solidTokens_append, solidTokens_append, solidTokens_of_respaces hms 0 0]
    rfl
  · rw [← Tree.sexp_mapLeaves hkinds tree', hsame, Tree.sexp_mapLeaves hkinds]

/-- A phrase in a comment, a name that runs on where a phrase would end, and blanks in a string. -/
theorem respaced_call_keeps_tree :
    let source := "<(-.-)> Execute order\nHypersignal Execute order_ Jamsignal " ++
      "A long time ago in a f far, far away...  Execute order g \"a  b\" -7 Order executed " ++
      "May the force be with you."
    let texts := ["<(-.-)> Execute order", "\n\t\r", "Hypersignal", "\n\n", "Execute", "\n ",
      "order_", "\n\u2003", "Jamsignal", "\n", "A long time ago in a", "\n", "f", "\n",
      "far, far away...", "\n", "Execute order", "\n", "g", "\n", "\"", "a  b", "\"", "\n", "-",
      "7", "\n", "Order executed", "\n  ", "May the force be with you.", ""]
    ∃ tree tokens, Lexicon.standard.readTree source none = .ok tree ∧
      Lexicon.standard.readTokens source none = .ok tokens ∧
      List.Forall₂ Token.Respaces tokens texts ∧
      ∃ tree' tokens', Lexicon.standard.readTree (String.join texts) none = .ok tree' ∧
        Lexicon.standard.readTokens (String.join texts) none = .ok tokens' ∧
        tokens'.map (·.value) = texts ∧ solidTokens tokens' = solidTokens tokens ∧
        tree'.sexp = tree.sexp := by
  intro source texts
  have hparses : (Lexicon.standard.readTree source none).isOk = true := by decide +kernel
  have hfits : (Lexicon.standard.readTokens source none).toOption.any
      (fun tokens => decide (List.Forall₂ Token.Respaces tokens texts)) = true := by
    decide +kernel
  obtain ⟨tree, htree⟩ := exists_of_isOk hparses
  cases htokens : Lexicon.standard.readTokens source none with
  | error d =>
    rw [htokens] at hfits
    cases hfits
  | ok tokens =>
    rw [htokens] at hfits
    have h : List.Forall₂ Token.Respaces tokens texts := of_decide_eq_true hfits
    exact ⟨tree, tokens, htree, rfl, h, readTree_of_respaced_source htree htokens h⟩

end HslTree
