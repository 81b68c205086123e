import HslTree.Proofs.IntegerValues
import HslTree.Proofs.Modes

/-! Strings in trees. Every node closes what it opens, so the tokens in front of a string leave none
open, and the tokens of a string node are those that its text is read as. -/

namespace HslTree

def Token.lexeme (t : Token) : Lexeme := ⟨t.kind, t.value.toList⟩

theorem map_lexeme_placeAll (file : String) (a : Nat) (ls : List Lexeme) :
    (placeAll file a ls).map Token.lexeme = ls := by
  induction ls generalizing a with
  | nil => rfl
  | cons l ls ih => simp [placeAll, Token.lexeme, Lexeme.place, ih]

theorem toList_join_values (ts : List Token) :
    (String.join (ts.map (·.value))).toList = textOf (ts.map Token.lexeme) := by
  induction ts with
  | nil => rfl
  | cons t ts ih => simp [String.join_cons, Token.lexeme, ih]

/-- What is opened among tokens is closed there. -/
def Balanced (ts : List Token) : Prop := Mode.walk .plain (ts.map Token.lexeme) = some .plain

section Balance

variable {file : String} {tree n : Tree} {kind : NodeKind} {children : List Tree}

theorem Balanced.append {ts us : List Token} (h : Balanced ts) (h' : Balanced us) :
    Balanced (ts ++ us) := by
  rw [Balanced, List.map_append, Mode.walk_append, h]
  exact h'

theorem balanced_tokensOf {cs : List Tree} (h : ∀ c ∈ cs, Balanced c.tokens) :
    Balanced (Tree.tokensOf cs) := by
  induction cs with
  | nil => rfl
  | cons c cs ih => exact (h c (by simp)).append (ih fun d hd => h d (by simp [hd]))

theorem Mode.walk_string {ls : List Lexeme} (h : ∀ l ∈ ls, l.kind = .content ∨ l.kind = .escape) :
    Mode.walk .string ls = some .string := by
  induction ls with
  | nil => rfl
  | cons l ls ih =>
    have hrest := ih fun k hk => h k (by simp [hk])
    rcases h l (by simp) with hl | hl
    · simpa [walk, next?, hl] using hrest
    · simpa [walk, next?, hl] using hrest

theorem symbol_mem_alphabet (hsymbols : symbols children ∈ production kind) {c : Tree}
    (hc : c ∈ children) (hextra : c.isExtra = false) : c.symbol ∈ kind.alphabet :=
  mem_alphabet hsymbols (List.mem_map_of_mem (List.mem_filter.mpr ⟨hc, by simp [hextra]⟩))

theorem NodeKind.not_tight_of_node {kind k : NodeKind} (h : .node k ∈ kind.alphabet) :
    kind.isTight = false := by
  cases kind with
  | integer | string => simp [alphabet] at h
  | _ => rfl

theorem exists_leaves {cs : List Tree} (h : ∀ c ∈ cs, ∃ k, c.symbol = .token k) :
    ∃ ts : List Token, cs = ts.map .leaf := by
  induction cs with
  | nil => exact ⟨[], rfl⟩
  | cons c cs ih =>
    obtain ⟨k, hk⟩ := h c (by simp)
    obtain ⟨t, rfl, _⟩ := Tree.exists_leaf hk
    obtain ⟨ts, rfl⟩ := ih fun d hd => h d (by simp [hd])
    exact ⟨t :: ts, rfl⟩

theorem Derivation.string_children (h : Derivation file n) (hkind : n.kind? = some .string) :
    ∃ ts : List Token, n = nodeOf file .string (ts.map .leaf) ∧ (∀ t ∈ ts, t.isExtra = false) ∧
      ts.map (Symbol.token ·.kind) ∈ production .string := by
  cases h with
  | leaf => cases hkind
  | @node kind children hchildren hsymbols hextras =>
    obtain rfl : kind = .string := Option.some.inj hkind
    have hextra := hextras.tight rfl
    have hleaves : ∀ c ∈ children, ∃ k, c.symbol = .token k := by
      intro c hc
      have hmem := symbol_mem_alphabet hsymbols hc (hextra c hc)
      simp only [NodeKind.alphabet, List.mem_cons, List.not_mem_nil, or_false] at hmem
      rcases hmem with h | h | h <;> exact ⟨_, h⟩
    obtain ⟨ts, rfl⟩ := exists_leaves hleaves
    refine ⟨ts, rfl, fun t ht => hextra (.leaf t) (List.mem_map_of_mem ht), ?_⟩
    have hall : (ts.map Tree.leaf).filter (!·.isExtra) = ts.map .leaf :=
      List.filter_eq_self.mpr fun c hc => by simp [hextra c hc]
    rw [symbols, hall, List.map_map] at hsymbols
    exact hsymbols

theorem Derivation.string_tokens (h : Derivation file n) (hkind : n.kind? = some .string) :
    ∃ q body q', n.tokens = q :: (body ++ [q']) ∧ q.kind = .quote ∧ q'.kind = .quote ∧
      ∀ t ∈ body, t.kind = .content ∨ t.kind = .escape := by
  obtain ⟨ts, rfl, _, hsymbols⟩ := h.string_children hkind
  obtain ⟨_, ⟨_, rfl, inside, hinside, rfl⟩, _, rfl, hsplit⟩ := hsymbols
  have hparts : inside ∈ allOf fun s => s = .token .content ∨ s = .token .escape :=
    kstar_le_allOf _ (add_le_allOf _ (aToken_le_allOf _ (.inl rfl))
      (aToken_le_allOf _ (.inr rfl))) hinside
  obtain ⟨q, rest, rfl, hq, hrest⟩ := List.map_eq_cons_iff.mp hsplit.symm
  obtain ⟨body, last, rfl, rfl, hlast⟩ := List.map_eq_append_iff.mp hrest
  obtain ⟨q', rfl, hq'⟩ := List.map_eq_singleton_iff.mp hlast
  refine ⟨q, body, q', Tree.tokensOf_leaves _, Symbol.token.inj hq, Symbol.token.inj hq', ?_⟩
  intro t ht
  simpa using hparts _ (List.mem_map_of_mem ht)

theorem Derivation.balanced_of_tight (h : Derivation file n) {kind : NodeKind}
    (hkind : n.kind? = some kind) (htight : kind.isTight = true) : Balanced n.tokens := by
  cases kind with
  | integer =>
    obtain ⟨t, ht, hone | ⟨m, hm, htwo⟩⟩ := h.integer_tokens hkind
    · simp [Balanced, hone, Mode.walk, Token.lexeme, Mode.next?, ht]
    · simp [Balanced, htwo, Mode.walk, Token.lexeme, Mode.next?, ht, hm]
  | string =>
    obtain ⟨q, body, q', htokens, hq, hq', hbody⟩ := h.string_tokens hkind
    have hinside : Mode.walk .string (body.map Token.lexeme) = some .string := by
      refine Mode.walk_string fun l hl => ?_
      obtain ⟨t, ht, rfl⟩ := List.mem_map.mp hl
      exact hbody t ht
    simp [Balanced, htokens, Mode.walk, Mode.walk_append, hinside, Token.lexeme, Mode.next?, hq,
      hq']
  | _ => cases htight

/-- The leaves that stand beside other nodes neither open nor close anything. -/
theorem leaf_balanced (hsymbols : symbols children ∈ production kind)
    (htight : kind.isTight = false) {t : Token} (ht : .leaf t ∈ children) : Balanced [t] := by
  have hnext : Mode.next? .plain t.kind = some .plain := by
    cases hextra : t.isExtra with
    | true =>
      have hkinds : ∀ k ∈ Kind.all, k.isExtra = true → Mode.next? .plain k = some .plain := by
        decide
      exact hkinds t.kind (Kind.mem_all _) hextra
    | false =>
      have hkinds : ∀ k ∈ Kind.all, kind.isTight = false → .token k ∈ kind.alphabet →
          Mode.next? .plain k = some .plain := by cases kind <;> decide
      exact hkinds t.kind (Kind.mem_all _) htight (symbol_mem_alphabet hsymbols ht hextra)
  simp [Balanced, Mode.walk, Token.lexeme, hnext]

theorem balanced_children (hsymbols : symbols children ∈ production kind)
    (htight : kind.isTight = false)
    (hnodes : ∀ c ∈ children, c.isNode = true → Balanced c.tokens) {cs : List Tree}
    (hcs : ∀ c ∈ cs, c ∈ children) : Balanced (Tree.tokensOf cs) := by
  refine balanced_tokensOf fun c hc => ?_
  cases c with
  | leaf t => exact leaf_balanced hsymbols htight (hcs _ hc)
  | node => exact hnodes _ (hcs _ hc) rfl

theorem Derivation.balanced (h : Derivation file tree) (hnode : tree.isNode = true) :
    Balanced tree.tokens := by
  induction h with
  | leaf => cases hnode
  | @node kind children hchildren hsymbols hextras ih =>
    cases htight : kind.isTight with
    | true => exact balanced_of_tight (.node hchildren hsymbols hextras) rfl htight
    | false => exact balanced_children hsymbols htight ih fun c hc => hc

/-- Nothing is left open in front of a node. -/
theorem Derivation.balanced_before (h : Derivation file tree) (hn : n ∈ tree.nodes) :
    ∃ us vs, tree.tokens = us ++ (n.tokens ++ vs) ∧ Balanced us ∧ Derivation file n := by
  induction h with
  | leaf => cases hn
  | @node kind children hchildren hsymbols hextras ih =>
    rcases List.mem_cons.mp hn with rfl | hn
    · exact ⟨[], [], (List.append_nil _).symm, rfl, .node hchildren hsymbols hextras⟩
    · obtain ⟨c, hc, hnc⟩ := Tree.mem_nodesOf hn
      obtain ⟨us, vs, hcut, hus, hderived⟩ := ih c hc hnc
      -- A node that has nodes below it is not tight, so no leaf beside them is a quote.
      have htight : kind.isTight = false := by
        cases c with
        | leaf => cases hnc
        | node => exact NodeKind.not_tight_of_node (symbol_mem_alphabet hsymbols hc rfl)
      obtain ⟨xs, ys, rfl⟩ := List.append_of_mem hc
      have hxs : Balanced (Tree.tokensOf xs) :=
        balanced_children hsymbols htight (fun d hd => (hchildren d hd).balanced)
          fun d hd => List.mem_append_left _ hd
      refine ⟨Tree.tokensOf xs ++ us, vs ++ Tree.tokensOf ys, ?_, hxs.append hus, hderived⟩
      simp [nodeOf, Tree.tokens, Tree.tokensOf, hcut]

end Balance

section Lexemes

variable {m : Mode} {us vs : List Lexeme}

theorem Pattern.Forms.single_or_string {pattern : Pattern} {ls : List Lexeme} {v : List Char}
    (h : pattern.Forms ls v) (hmem : pattern ∈ Lexicon.standard.patterns) :
    (∃ l, ls = [l] ∧ l.kind = pattern.kind ∧
      l.kind ≠ .quote ∧ l.kind ≠ .content ∧ l.kind ≠ .escape) ∨
    ∃ units, pattern = .string ∧ ls = stringLexemes units := by
  cases h with
  | @phrase p =>
    have hkinds : ∀ p ∈ Phrase.all, p.kind ≠ .quote ∧ p.kind ≠ .content ∧ p.kind ≠ .escape := by
      decide
    have hp := (Lexicon.withScanner_orderly longestRun).phrases p hmem
    exact .inl ⟨_, rfl, rfl, hkinds p hp⟩
  | string units => exact .inr ⟨units, rfl, rfl⟩
  | blank | comment | identifier | number | minus | char => exact .inl ⟨_, rfl, rfl, by simp⟩

theorem Mode.next?_ne_string {k : Kind} {m' : Mode} (hm : m ≠ .string) (hk : k ≠ .quote)
    (h : m.next? k = some m') : m' ≠ .string := by
  rintro rfl
  have hkinds : ∀ k ∈ Kind.all, m ≠ .string → k ≠ .quote → m.next? k ≠ some .string := by
    cases m <;> decide
  exact hkinds k (Kind.mem_all k) hm hk h

theorem stringLexemes_append (units : List StringUnit) (rest : List Lexeme) :
    stringLexemes units ++ rest =
      ⟨.quote, ['"']⟩ :: (StringUnit.lexemes units ++ ⟨.quote, ['"']⟩ :: rest) := by
  simp [stringLexemes]

theorem inside_to_quote {inside : List Lexeme} {q : Lexeme}
    (h : ∀ l ∈ inside, l.kind = .content ∨ l.kind = .escape) (hq : q.kind = .quote)
    (rest : List Lexeme) :
    (inside ++ q :: rest).takeWhile (·.kind ≠ .quote) = inside ∧
      (inside ++ q :: rest).dropWhile (·.kind ≠ .quote) = q :: rest := by
  refine takeWhile_append_stop (fun l hl => ?_) (by simp [hq])
  rcases h l hl with hl | hl
  · simp [hl]
  · simp [hl]

theorem Mode.eq_string_of_quote {m' : Mode} (hm : m ≠ .string) (h : m.next? .quote = some m') :
    m' = .string := by
  cases m with
  | plain => exact (Option.some.inj h).symm
  | digits => cases h
  | string => exact absurd rfl hm

/-- A walk that has left a string has passed its closing quote. -/
theorem Mode.exists_behind_quote {inside rest : List Lexeme} {q : Lexeme}
    (hinside : ∀ l ∈ inside, l.kind = .content ∨ l.kind = .escape) (hq : q.kind = .quote)
    (hls : us ++ vs = inside ++ q :: rest) (hwalk : Mode.walk .string us = some .plain) :
    ∃ ws, rest = ws ++ vs ∧ Mode.walk .plain ws = some .plain := by
  induction inside generalizing us with
  | nil =>
    cases us with
    | nil => cases hwalk
    | cons u us =>
      obtain ⟨rfl, hrest⟩ := List.cons.inj hls
      exact ⟨us, hrest.symm, by simpa [walk, next?, hq] using hwalk⟩
  | cons l inside ih =>
    cases us with
    | nil => cases hwalk
    | cons u us =>
      obtain ⟨rfl, hrest⟩ := List.cons.inj hls
      refine ih (fun k hk => hinside k (by simp [hk])) hrest ?_
      rcases hinside u (by simp) with hu | hu
      · simpa [walk, next?, hu] using hwalk
      · simpa [walk, next?, hu] using hwalk

/-- Lexemes can be cut where nothing is open. -/
theorem Lexed.drop_walked (h : Lexed (us ++ vs)) (hm : m ≠ .string)
    (hwalk : m.walk us = some .plain) : Lexed vs := by
  generalize hls : us ++ vs = ls at h
  induction h generalizing us m with
  | nil =>
    obtain ⟨_, rfl⟩ := List.append_eq_nil_iff.mp hls
    exact .nil
  | @append pattern ls rest hmem hforms hphrase hrest ih =>
    cases us with
    | nil =>
      obtain rfl : vs = ls ++ rest := hls
      exact .append hmem hforms hphrase hrest
    | cons u us =>
      obtain ⟨m', hnext, hwalk'⟩ := Option.bind_eq_some_iff.mp hwalk
      rcases hforms.single_or_string hmem with ⟨l, rfl, -, hl, -⟩ | ⟨units, -, rfl⟩
      · obtain ⟨rfl, hrest'⟩ := List.cons.inj hls
        exact ih (Mode.next?_ne_string hm hl hnext) hwalk' hrest'
      -- The cut is not inside of the string, because the walk is back outside there.
      · rw [stringLexemes_append] at hls
        obtain ⟨rfl, hrest'⟩ := List.cons.inj hls
        obtain rfl := Mode.eq_string_of_quote hm hnext
        obtain ⟨ws, rfl, hws⟩ :=
          Mode.exists_behind_quote StringUnit.kind_of_mem_lexemes rfl hrest' hwalk'
        exact ih (by simp) hws rfl

theorem Lexed.string_first {q q' : Lexeme} {body rest : List Lexeme}
    (h : Lexed (q :: (body ++ q' :: rest))) (hq : q.kind = .quote) (hq' : q'.kind = .quote)
    (hbody : ∀ l ∈ body, l.kind = .content ∨ l.kind = .escape) :
    ∃ units, q :: (body ++ [q']) = stringLexemes units := by
  generalize hls : q :: (body ++ q' :: rest) = ls at h
  cases h with
  | nil => cases hls
  | append hmem hforms =>
    rcases hforms.single_or_string hmem with ⟨l, rfl, -, hl, -⟩ | ⟨units, -, rfl⟩
    · obtain ⟨rfl, _⟩ := List.cons.inj hls
      exact absurd hq hl
    · rw [stringLexemes_append] at hls
      obtain ⟨rfl, hrest⟩ := List.cons.inj hls
      have hquote : (⟨.quote, ['"']⟩ : Lexeme).kind = .quote := rfl
      obtain ⟨htake, hdrop⟩ := inside_to_quote hbody hq' rest
      rw [hrest] at htake hdrop
      obtain ⟨htake', hdrop'⟩ := inside_to_quote StringUnit.kind_of_mem_lexemes hquote _
      obtain ⟨rfl, _⟩ := List.cons.inj (hdrop.symm.trans hdrop')
      exact ⟨units, by rw [htake.symm.trans htake', stringLexemes]⟩

end Lexemes

theorem exists_units_of_mem_nodes {source : String} {label? : Option String} {tree n : Tree}
    (h : Lexicon.standard.readTree source label? = .ok tree) (hn : n ∈ tree.nodes)
    (hkind : n.kind? = some .string) :
    ∃ units, n.tokens.map Token.lexeme = stringLexemes units := by
  obtain ⟨ls, hread, hderives⟩ := Lexicon.readTree_eq_ok_iff.mp h
  have hlexed := (Lexicon.read_eq_iff.mp hread).1
  obtain ⟨us, vs, htokens, hus, hderived⟩ := hderives.derivation.balanced_before hn
  obtain ⟨q, body, q', hstring, hq, hq', hbody⟩ := hderived.string_tokens hkind
  have hls : ls = us.map Token.lexeme ++ (n.tokens.map Token.lexeme ++ vs.map Token.lexeme) := by
    rw [← List.map_append, ← List.map_append, ← htokens, hderives.leaves, map_lexeme_placeAll]
  rw [hls] at hlexed
  have hrest := hlexed.drop_walked (by simp) hus
  rw [hstring] at hrest ⊢
  simp only [List.map_cons, List.map_append, List.map_nil, List.cons_append, List.append_assoc,
    List.nil_append] at hrest ⊢
  refine hrest.string_first hq hq' fun l hl => ?_
  obtain ⟨t, ht, rfl⟩ := List.mem_map.mp hl
  exact hbody t ht

end HslTree
