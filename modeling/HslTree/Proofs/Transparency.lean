import HslTree.Tree.Sexp
import HslTree.Proofs.RuleLayout

/-! Extras are transparent to the parser. A token list without its extras has the tree without them,
and extras may be put anywhere but behind a minus and into a string. -/

namespace HslTree

namespace Tree

/-- Fields that count the children without the extras. -/
def renumbered (children : List Tree) (fields : List (Field × Nat)) : List (Field × Nat) :=
  fields.map fun (field, index) => (field, (children.take index).countP (!·.isExtra))

mutual

/-- The tree without its extras. A node that is left without children stands at a given place. -/
def strip (emptyAt : Position) : Tree → Tree
  | leaf token => leaf token
  | node kind children fields _ =>
    Draft.finish ⟨kind, stripAll emptyAt children, renumbered children fields⟩ emptyAt

def stripAll (emptyAt : Position) : List Tree → List Tree
  | [] => []
  | tree :: rest =>
    if tree.isExtra then stripAll emptyAt rest
    else tree.strip emptyAt :: stripAll emptyAt rest

end

variable {emptyAt : Position}

theorem symbol_strip (tree : Tree) : (tree.strip emptyAt).symbol = tree.symbol := by
  cases tree <;> rfl

theorem isExtra_strip (tree : Tree) : (tree.strip emptyAt).isExtra = tree.isExtra := by
  cases tree <;> rfl

theorem role_strip (kind : NodeKind) (tree : Tree) :
    (tree.strip emptyAt).role kind = tree.role kind := by
  cases tree <;> rfl

theorem stripAll_eq (cs : List Tree) :
    stripAll emptyAt cs = (cs.filter (!·.isExtra)).map (strip emptyAt) := by
  induction cs with
  | nil => rfl
  | cons c cs ih => cases hc : c.isExtra <;> simp [stripAll, hc, ih]

theorem isExtra_of_mem_stripAll {cs : List Tree} :
    ∀ c ∈ stripAll emptyAt cs, c.isExtra = false := by
  intro c hc
  rw [stripAll_eq] at hc
  obtain ⟨d, hd, rfl⟩ := List.mem_map.mp hc
  rw [isExtra_strip]
  simpa using (List.mem_filter.mp hd).2

theorem symbols_stripAll (cs : List Tree) : symbols (stripAll emptyAt cs) = symbols cs := by
  have hall : (stripAll emptyAt cs).filter (!·.isExtra) = stripAll emptyAt cs :=
    List.filter_eq_self.mpr (by simpa using isExtra_of_mem_stripAll)
  rw [symbols, hall, stripAll_eq, symbols]
  simp [Function.comp_def, symbol_strip]

mutual

theorem tokens_strip :
    ∀ tree : Tree, tree.isExtra = false →
      (tree.strip emptyAt).tokens = tree.tokens.filter (!·.isExtra)
  | leaf token, h => by
    have htoken : token.isExtra = false := h
    simp [strip, tokens, htoken]
  | node kind children fields span, _ => tokensOf_stripAll children

theorem tokensOf_stripAll :
    ∀ cs : List Tree, tokensOf (stripAll emptyAt cs) = (tokensOf cs).filter (!·.isExtra)
  | [] => rfl
  | c :: cs => by
    rw [stripAll, tokensOf, List.filter_append, ← tokensOf_stripAll cs]
    cases hc : c.isExtra with
    | false => simp [tokensOf, tokens_strip c hc]
    | true =>
      cases c with
      | node => cases hc
      | leaf token =>
        have htoken : token.isExtra = true := hc
        simp [tokens, htoken]

end

theorem role_extra (kind : NodeKind) {c : Tree} (hc : c.isExtra = true) : c.role kind = none := by
  cases c with
  | leaf token => exact roleOf_extra hc
  | node => cases hc

theorem renumbered_append (cs : List Tree) (fs gs : List (Field × Nat)) :
    renumbered cs (fs ++ gs) = renumbered cs fs ++ renumbered cs gs := List.map_append

theorem renumbered_fieldsFrom (kind : NodeKind) (front back : List Tree) :
    renumbered (front ++ back) (fieldsFrom kind front.length back) =
      fieldsFrom kind (front.countP (!·.isExtra)) (stripAll emptyAt back) := by
  -- The children in `front` are counted already, with extras on the left and without on the right.
  induction back generalizing front with
  | nil => rfl
  | cons c back ih =>
    have hrest := ih (front ++ [c])
    rw [List.append_assoc, List.singleton_append, List.length_append, List.length_singleton,
      List.countP_append] at hrest
    have hfirst : renumbered (front ++ c :: back) ((c.role kind).map (·, front.length)).toList =
        ((c.role kind).map (·, front.countP (!·.isExtra))).toList := by
      cases c.role kind <;> simp [renumbered]
    rw [fieldsFrom, renumbered_append, hfirst, hrest, stripAll]
    cases hc : c.isExtra with
    | false => simp [hc, fieldsFrom, role_strip]
    | true => simp [hc, role_extra kind hc]

theorem strip_nodeOf (file : String) (kind : NodeKind) (cs : List Tree) :
    (nodeOf file kind cs).strip (.at file 0) = nodeOf file kind (stripAll (.at file 0) cs) := by
  have hfields : renumbered cs (fieldsFrom kind 0 cs) =
      fieldsFrom kind 0 (stripAll (.at file 0) cs) := renumbered_fieldsFrom kind [] cs
  rw [nodeOf, strip, hfields]
  exact Draft.finish_of file kind _ _ (.inr rfl)

end Tree

theorem Derivation.strip {file : String} {tree : Tree} (h : Derivation file tree) :
    Derivation file (tree.strip (.at file 0)) := by
  induction h with
  | leaf token => exact .leaf token
  | @node kind children _ hsymbols _ ih =>
    rw [Tree.strip_nodeOf]
    refine .node (fun c hc => ?_) ?_ (.of_none Tree.isExtra_of_mem_stripAll)
    · rw [Tree.stripAll_eq] at hc
      obtain ⟨d, hd, rfl⟩ := List.mem_map.mp hc
      exact ih d (List.mem_filter.mp hd).1
    · rwa [Tree.symbols_stripAll]

theorem Derives.strip {file : String} {tree : Tree} {leaves : List Token}
    (h : Derives file tree leaves) :
    Derives file (tree.strip (.at file 0)) (leaves.filter (!·.isExtra)) where
  derivation := h.derivation.strip
  root := by rw [Tree.symbol_strip, h.root]
  leaves := by
    rw [Tree.tokens_strip tree (Tree.isExtra_of_symbol h.root), h.leaves]

theorem body_filter (tokens : List Token) :
    body (tokens.filter (!·.isExtra)) = (body tokens).filter (!·.isExtra) := by
  induction tokens with
  | nil => rfl
  | cons t ts ih =>
    by_cases hend : t.kind = .endOfInput
    · have ht : t.isExtra = false := by rw [Token.isExtra, hend]; rfl
      simp [body, hend, ht]
    · have hbody : body (t :: ts) = t :: body ts := List.takeWhile_cons_of_pos (by simp [hend])
      rw [hbody]
      cases ht : t.isExtra with
      | false =>
        have hkept : body (t :: ts.filter (!·.isExtra)) = t :: body (ts.filter (!·.isExtra)) :=
          List.takeWhile_cons_of_pos (by simp [hend])
        simp [ht, hkept, ih]
      | true => simp [ht, ih]

def quotes (ts : List Token) : Nat := ts.countP (·.kind = .quote)

/-- No extra stands right behind a minus, or between a quote of odd number and the next quote. -/
def Spaced (ts : List Token) : Prop :=
  ∀ i < ts.length, ∀ e ∈ ts[i]?, e.isExtra = true →
    (∀ m ∈ (ts.take i).getLast?, m.kind ≠ .minus) ∧
      ¬ (Odd (quotes (ts.take i)) ∧ ∃ t ∈ ts.drop i, t.kind = .quote)

instance (ts : List Token) : Decidable (Spaced ts) :=
  inferInstanceAs (Decidable (∀ i < ts.length, ∀ e ∈ ts[i]?, e.isExtra = true →
    (∀ m ∈ (ts.take i).getLast?, m.kind ≠ .minus) ∧
      ¬ (Odd (quotes (ts.take i)) ∧ ∃ t ∈ ts.drop i, t.kind = .quote)))

namespace Point

def inString : Point → Bool
  | string _ => true
  | _ => false

theorem inString_next? {q p : Point} {k : Kind} (hq : q ≠ closed) (h : q.next? k = some p) :
    p.inString = (q.inString ^^ decide (k = .quote)) := by
  have hall : ∀ k ∈ Kind.all, ∀ p ∈ q.next? k,
      p.inString = (q.inString ^^ decide (k = .quote)) := by
    cases q with
    | closed => exact absurd rfl hq
    | operand slot | digits slot | string slot => cases slot <;> decide
    | _ => decide
  exact hall k (Kind.mem_all k) p h

theorem eq_minus_of_next? {q p : Point} {k : Kind} (h : q.next? k = some p)
    (htight : p.isTight = true) (hstring : p.inString = false) : k = .minus := by
  have hall : ∀ k ∈ Kind.all, ∀ p ∈ q.next? k, p.isTight = true → p.inString = false →
      k = .minus := by
    cases q with
    | operand slot | digits slot | string slot => cases slot <;> decide
    | _ => decide
  exact hall k (Kind.mem_all k) p h htight hstring

/-- A walk is inside a string behind an odd number of quotes. -/
theorem inString_walk {q p : Point} (hq : q ≠ closed) {ts : List Token}
    (hts : ∀ t ∈ ts, t.kind ≠ .endOfInput) (h : q.walk ts = some p) :
    p.inString = true ↔ (q.inString = true ↔ Even (quotes ts)) := by
  induction ts generalizing q with
  | nil =>
    cases h
    simp [quotes]
  | cons t ts ih =>
    obtain ⟨r, hr, hwalk⟩ := Option.bind_eq_some_iff.mp h
    have ht := hts t (by simp)
    have hrest := ih (next?_ne_closed hq ht hr) (fun u hu => hts u (by simp [hu])) hwalk
    rw [hrest, inString_next? hq hr]
    by_cases hquote : t.kind = .quote
    · have hcount : quotes (t :: ts) = quotes ts + 1 := by simp [quotes, hquote]
      rw [hcount, Nat.even_add_one]
      cases q.inString <;> simp [hquote]
    · have hcount : quotes (t :: ts) = quotes ts := by simp [quotes, hquote]
      rw [hcount]
      cases q.inString <;> simp [hquote]

theorem inString_of_top {p : Point} {ts : List Token} (hts : ∀ t ∈ ts, t.kind ≠ .endOfInput)
    (h : top.walk ts = some p) : p.inString = true ↔ Odd (quotes ts) := by
  have hstring := inString_walk (by simp) hts h
  simpa [inString] using hstring

end Point

theorem quotes_filter (ts : List Token) : quotes (ts.filter (!·.isExtra)) = quotes ts := by
  rw [quotes, List.countP_filter]
  refine List.countP_congr fun t _ => ?_
  simp only [Bool.and_eq_true, decide_eq_true_eq, and_iff_left_iff_imp]
  intro hquote
  rw [Token.isExtra, hquote]
  rfl

section Spaced

variable {ts : List Token}

theorem Spaced.at_split (h : Spaced ts) {pre post : List Token} {e : Token}
    (hsplit : ts = pre ++ e :: post) (he : e.isExtra = true) :
    (∀ m ∈ pre.getLast?, m.kind ≠ .minus) ∧
      ¬ (Odd (quotes pre) ∧ ∃ t ∈ e :: post, t.kind = .quote) := by
  have hat := h pre.length (by simp [hsplit]) e (by simp [hsplit]) he
  simpa [hsplit] using hat

/-- At an extra of a spaced list the grammar allows a gap. -/
theorem Spaced.not_tight (h : Spaced ts) (hts : ∀ t ∈ ts, t.kind ≠ .endOfInput)
    (heven : ¬ Odd (quotes ts)) {pre post : List Token} {e : Token} (hsplit : ts = pre ++ e :: post)
    (he : e.isExtra = true) {q : Point} (hwalk : Point.top.walk pre = some q) :
    q.isTight = false := by
  obtain ⟨hminus, hstring⟩ := h.at_split hsplit he
  by_contra htight
  rw [Bool.not_eq_false] at htight
  have hpre : ∀ t ∈ pre, t.kind ≠ .endOfInput := fun t ht => hts t (by simp [hsplit, ht])
  have hodd := Point.inString_of_top hpre hwalk
  cases hin : q.inString with
  | true =>
    -- Quotes come in pairs, so another one stands behind the extra.
    refine hstring ⟨hodd.mp hin, ?_⟩
    by_contra hnone
    have hzero : quotes (e :: post) = 0 := by
      rw [quotes, List.countP_eq_zero]
      simpa using hnone
    have hsum : quotes ts = quotes pre + quotes (e :: post) := by
      rw [hsplit, quotes, List.countP_append]
      rfl
    rw [hsum, hzero, Nat.add_zero] at heven
    exact heven (hodd.mp hin)
  | false =>
    rcases List.eq_nil_or_concat pre with rfl | ⟨front, m, rfl⟩
    · cases hwalk
      cases htight
    · rw [List.concat_eq_append, Point.walk_append] at hwalk
      obtain ⟨p, _, hnext⟩ := Option.bind_eq_some_iff.mp hwalk
      rw [Point.walk_singleton] at hnext
      exact hminus m (by simp) (Point.eq_minus_of_next? hnext htight hin)

theorem Spaced.walk_eq (h : Spaced ts) (hts : ∀ t ∈ ts, t.kind ≠ .endOfInput)
    (hwalk : Point.top.walk (ts.filter (!·.isExtra)) = some .top) {pre post : List Token}
    (hsplit : ts = pre ++ post) :
    Point.top.walk pre = Point.top.walk (pre.filter (!·.isExtra)) := by
  have hno : ∀ t ∈ ts.filter (!·.isExtra), t.kind ≠ .endOfInput :=
    fun t ht => hts t (List.mem_filter.mp ht).1
  have heven : ¬ Odd (quotes ts) := by
    rw [← quotes_filter, ← Point.inString_of_top hno hwalk]
    simp [Point.inString]
  induction pre using List.reverseRecOn generalizing post with
  | nil => rfl
  | append_singleton pre t ih =>
    have hpre := ih (show ts = pre ++ t :: post by simpa using hsplit)
    obtain ⟨q, hq⟩ : ∃ q, Point.top.walk (pre.filter (!·.isExtra)) = some q := by
      rw [hsplit, List.append_assoc, List.filter_append, Point.walk_append] at hwalk
      obtain ⟨q, hq, _⟩ := Option.bind_eq_some_iff.mp hwalk
      exact ⟨q, hq⟩
    rw [Point.walk_append_of (hpre.trans hq), Point.walk_singleton, List.filter_append]
    cases ht : t.isExtra with
    | false => simp [ht, Point.walk_append_of hq, Point.walk_singleton]
    | true =>
      have hcut : ts = pre ++ t :: post := by simpa using hsplit
      have htight := h.not_tight hts heven hcut ht (hpre.trans hq)
      simp [ht, hq, Point.next?_extra htight ht]

end Spaced

/-- Extras can be left out of an accepted token list and be put into one where a gap is allowed: the
trees are the same without them. -/
theorem parseTokens_extras_transparent (file : String) (tokens : List Token) :
    (∀ tree, parseTokens file tokens = .ok tree →
      parseTokens file (tokens.filter (!·.isExtra)) = .ok (tree.strip (.at file 0))) ∧
    (∀ bare, parseTokens file (tokens.filter (!·.isExtra)) = .ok bare → Spaced (body tokens) →
      ∃ tree, parseTokens file tokens = .ok tree ∧ tree.strip (.at file 0) = bare) := by
  have hstrip (tree : Tree) (htree : parseTokens file tokens = .ok tree) :
      parseTokens file (tokens.filter (!·.isExtra)) = .ok (tree.strip (.at file 0)) := by
    obtain ⟨hderivation, hroot, hleaves, _⟩ := parseTokens_derivation htree
    have hderives : Derives file tree (body tokens) := ⟨hderivation, hroot, hleaves⟩
    refine Derives.parseTokens ?_
    rw [body_filter]
    exact hderives.strip
  refine ⟨hstrip, fun bare hbare hspaced => ?_⟩
  have haccepted : Accepted file (tokens.filter (!·.isExtra)) := ⟨bare, hbare⟩
  rw [accepted_iff, body_filter] at haccepted
  have hwalk := hspaced.walk_eq (fun _ => no_end_of_mem_body) haccepted (List.append_nil _).symm
  obtain ⟨tree, htree⟩ : Accepted file tokens := accepted_iff.mpr (hwalk.trans haccepted)
  exact ⟨tree, htree, Except.ok.inj ((hstrip tree htree).symm.trans hbare)⟩

/-- Extras around a negative number and a string, and some behind the end mark. -/
theorem spaced_call_transparent :
    let tokens := [.comment, .functionOpen, .blank, .identifier, .functionMiddle, .blank, .callOpen,
      .blank, .comment, .identifier, .blank, .minus, .number, .blank, .quote, .content, .escape,
      .quote, .comment, .callClose, .functionClose, .blank, .endOfInput, .minus, .blank].map
        Token.ofKind
    Spaced (body tokens) ∧
      ∃ tree bare, parseTokens "a.hsl" tokens = .ok tree ∧
        parseTokens "a.hsl" (tokens.filter (!·.isExtra)) = .ok bare ∧
        bare.sexp = "(source_file (function_definition name: (identifier) (statement " ++
          "(function_call name: (identifier) " ++
          "(expression (literal (integer (unsigned_integer)))) " ++
          "(expression (literal (string (string_content) (escape_sequence))))))))" ∧
        parseTokens "a.hsl" (tokens.filter (!·.isExtra)) = .ok (tree.strip (.at "a.hsl" 0)) ∧
        ∃ other, parseTokens "a.hsl" tokens = .ok other ∧ other.strip (.at "a.hsl" 0) = bare := by
  intro tokens
  have hspaced : Spaced (body tokens) := by decide +kernel
  have hfull : (parseTokens "a.hsl" tokens).isOk = true := by decide +kernel
  have hbare : (parseTokens "a.hsl" (tokens.filter (!·.isExtra))).isOk = true := by decide +kernel
  have hsexp : (parseTokens "a.hsl" (tokens.filter (!·.isExtra))).toOption.map Tree.sexp =
      some ("(source_file (function_definition name: (identifier) (statement " ++
        "(function_call name: (identifier) " ++
        "(expression (literal (integer (unsigned_integer)))) " ++
        "(expression (literal (string (string_content) (escape_sequence))))))))") := by
    decide +kernel
  obtain ⟨tree, htree⟩ := exists_of_isOk hfull
  obtain ⟨bare, hrest⟩ := exists_of_isOk hbare
  obtain ⟨hstrip, hback⟩ := parseTokens_extras_transparent "a.hsl" tokens
  rw [hrest] at hsexp
  exact ⟨hspaced, tree, bare, htree, hrest, Option.some.inj hsexp, hstrip tree htree,
    hback bare hrest hspaced⟩

end HslTree
