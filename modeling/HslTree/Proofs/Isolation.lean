import HslTree.Proofs.FileTrees
import HslTree.Proofs.Lexed
import HslTree.Proofs.Relocation

/-! Definitions are read alone as they are read in their file. Keywords stand at both ends of one,
so its tokens do not change where the text around it is cut off. -/

namespace HslTree

open scoped Computability

section Ends

variable {file : String} {d : Tree}

theorem concat_mem_mul_aToken {w : List Symbol} {a : Symbol} {L : Language Symbol} {k : Kind} :
    w ++ [a] ∈ L * aToken k ↔ w ∈ L ∧ a = .token k := by
  rw [Language.mem_mul]
  constructor
  · rintro ⟨u, hu, _, rfl, huv⟩
    obtain ⟨rfl, ha⟩ := List.append_inj' huv rfl
    exact ⟨hu, (List.singleton_inj.mp ha).symm⟩
  · rintro ⟨hw, rfl⟩
    exact ⟨w, hw, _, rfl, rfl⟩

variable (h : Derivation file d)
  (hsymbol : d.symbol = .node .externBlock ∨ d.symbol = .node .function)

include h hsymbol

theorem Derivation.opening_token : ∃ t ts, d.tokens = t :: ts ∧ t.kind.phrase?.isSome := by
  obtain ⟨rule, hrule, hopens⟩ : ∃ rule : Rule, d.symbol = .node rule.nodeKind ∧
      ∀ k ∈ Kind.all, rule.opens k = true → k.phrase?.isSome = true := by
    rcases hsymbol with hd | hd
    · exact ⟨.externBlock, hd, by decide⟩
    · exact ⟨.function, hd, by decide⟩
  obtain ⟨t, ts, htokens, _, ht⟩ := h.first_token hrule
  exact ⟨t, ts, htokens, hopens t.kind (Kind.mem_all _) ht⟩

theorem Derivation.closing_token :
    ∃ ts t, d.tokens = ts ++ [t] ∧ (t.kind = .externClose ∨ t.kind = .functionClose) := by
  cases h with
  | leaf => rcases hsymbol with hd | hd <;> cases hd
  | @node kind children _ hsymbols hextras =>
    have hdefinition : kind = .externBlock ∨ kind = .function := by
      simpa [nodeOf, Tree.symbol] using hsymbol
    have hkind : kind ≠ .sourceFile := by
      rcases hdefinition with rfl | rfl <;> decide
    rcases List.eq_nil_or_concat children with rfl | ⟨front, c, rfl⟩
    · exact absurd hsymbols (nil_notMem_production hkind)
    · rw [List.concat_eq_append] at *
      have hc := hextras.last hkind c (by simp)
      rw [symbols_append, symbols_cons hc, symbols_nil] at hsymbols
      obtain ⟨k, hk, hlast⟩ : ∃ k, (k = .externClose ∨ k = .functionClose) ∧
          c.symbol = .token k := by
        rcases hdefinition with rfl | rfl
        · exact ⟨_, .inl rfl, (concat_mem_mul_aToken.mp hsymbols).2⟩
        · exact ⟨_, .inr rfl, (concat_mem_mul_aToken.mp hsymbols).2⟩
      cases c with
      | node => cases hlast
      | leaf t =>
        obtain rfl : t.kind = k := by simpa [Tree.symbol] using hlast
        exact ⟨Tree.tokensOf front, t, by simp [nodeOf, Tree.tokens, Tree.tokensOf], hk⟩

end Ends

section Cut

variable {file : String}

theorem concat_of_placeAll {a : Nat} {ls : List Lexeme} {t : Token} {ts : List Token}
    (h : placeAll file a ls = ts ++ [t]) : ∃ front l, ls = front ++ [l] ∧ l.kind = t.kind := by
  obtain ⟨us, vs, rfl, _, hvs⟩ := placeAll_split h.symm
  obtain ⟨l, rest, rfl, rfl, hrest⟩ := placeAll_eq_cons hvs.symm
  obtain rfl := eq_nil_of_placeAll hrest
  exact ⟨us, l, rfl, rfl⟩

theorem Lexed.of_definition {d : Tree} (h : Derivation file d)
    (hsymbol : d.symbol = .node .externBlock ∨ d.symbol = .node .function) {us ls vs : List Lexeme}
    (hlexed : Lexed (us ++ (ls ++ vs))) {a : Nat} (htokens : d.tokens = placeAll file a ls) :
    Lexed ls := by
  obtain ⟨t, ts, hfirst, ht⟩ := h.opening_token hsymbol
  obtain ⟨ts', t', hlast, ht'⟩ := h.closing_token hsymbol
  obtain ⟨l, rest, hrest, rfl, _⟩ := placeAll_eq_cons (htokens.symm.trans hfirst)
  obtain ⟨front, l', hfront, hl'⟩ := concat_of_placeAll (htokens.symm.trans hlast)
  rw [hrest, List.cons_append] at hlexed
  have hbehind := hlexed.drop ht
  rw [← List.cons_append, ← hrest, hfront, List.append_assoc] at hbehind
  rw [hfront]
  exact hbehind.cut (by rwa [hl'])

theorem exists_lexemes_of_mem {cs : List Tree} {d : Tree} (hd : d ∈ cs) {ls : List Lexeme}
    (hleaves : Tree.tokensOf cs = placeAll file 0 ls) :
    ∃ us ms vs, ls = us ++ (ms ++ vs) ∧ d.tokens = placeAll file (byteLength (textOf us)) ms := by
  obtain ⟨front, back, rfl⟩ := List.append_of_mem hd
  rw [Tree.tokensOf_append, Tree.tokensOf] at hleaves
  obtain ⟨us, rest, rfl, _, hrest⟩ := placeAll_split hleaves
  obtain ⟨ms, vs, rfl, htokens, _⟩ := placeAll_split hrest
  rw [Nat.zero_add] at htokens
  exact ⟨us, ms, vs, rfl, htokens⟩

end Cut

/-- The text of a definition is read as a file with the same definition in it, moved to the
start. -/
theorem readTree_of_definition_text {source : String} {label? : Option String} {tree d : Tree}
    (hsize : byteLength source.toList < 2 ^ 32)
    (htree : Lexicon.standard.readTree source label? = .ok tree) (hd : d ∈ tree.childNodes) :
    ∃ alone, Lexicon.standard.readTree d.text label? = .ok alone ∧
      alone.kind? = some .sourceFile ∧
      alone.children = [d.move (· - d.span.start.offset)] := by
  obtain ⟨ls, hread, hderives⟩ := Lexicon.readTree_eq_ok_iff.mp htree
  obtain ⟨hlexed, htext⟩ := Lexicon.read_eq_iff.mp hread
  obtain ⟨cs, rfl, hfile, hleaves⟩ := hderives.exists_children
  obtain ⟨hmem, hnode⟩ : d ∈ cs ∧ d.isNode = true := List.mem_filter.mp hd
  have hextra : d.isExtra = false := by
    cases d with
    | leaf => cases hnode
    | node => rfl
  have hsymbol := hfile.symbol_of_mem hmem hextra
  have hroot := hfile.symbol_ne hmem
  have hderivation := hfile.derived d hmem
  obtain ⟨us, ms, vs, rfl, htokens⟩ := exists_lexemes_of_mem hmem hleaves
  obtain ⟨n, hn⟩ : ∃ n, n = byteLength (textOf us) := ⟨_, rfl⟩
  rw [← hn] at htokens
  have hstart : d.span.start.offset = n.toUInt32 := by
    have hbound : n + byteLength (textOf ms) < 2 ^ 32 := by
      rw [← htext, textOf_append, textOf_append, byteLength_append, byteLength_append] at hsize
      omega
    rw [hderivation.span_eq htokens hbound fun hfile => absurd hfile hroot]
    rfl
  have hvalues : d.text = String.ofList (textOf ms) := by
    rw [Tree.text, htokens, values_placeAll]
  have hchildren := FileChildren.single (hderivation.move hroot (· - n.toUInt32))
    (by rwa [Tree.symbol_move])
  have hmoved : Tree.tokensOf [d.move (· - n.toUInt32)] =
      placeAll (label?.getD defaultLabel) 0 ms := by
    rw [Tree.tokensOf, Tree.tokensOf, List.append_nil, Tree.tokens_move, htokens,
      map_move_back_placeAll]
  have hread' := (hlexed.of_definition hderivation hsymbol htokens).read
  rw [hstart, hvalues]
  exact ⟨_, Lexicon.readTree_of_derives hread' (hmoved ▸ hchildren.derives), rfl, rfl⟩

/-- A function with the next definition right behind it. -/
theorem function_between_externs_alone :
    let source := "Hypersignal f Jamsignal A long time ago in a g far, far away... <(-.-)> \n" ++
      "Execute order f \"a  b\\n\" -7 Order executed May the force be with you." ++
      "Hypersignal Jamsignal"
    byteLength source.toList < 2 ^ 32 ∧
      ∃ tree d, Lexicon.standard.readTree source none = .ok tree ∧ tree.childNodes[1]? = some d ∧
        ∃ alone, Lexicon.standard.readTree d.text none = .ok alone ∧
          alone.kind? = some .sourceFile ∧
          alone.children = [d.move (· - d.span.start.offset)] := by
  intro source
  have hsize : byteLength source.toList < 2 ^ 32 := by decide +kernel
  have hfound : ((Lexicon.standard.readTree source none).toOption.bind
      (·.childNodes[1]?)).isSome = true := by decide +kernel
  cases htree : Lexicon.standard.readTree source none with
  | error d =>
    rw [htree] at hfound
    cases hfound
  | ok tree =>
    rw [htree] at hfound
    obtain ⟨d, hd⟩ := Option.isSome_iff_exists.mp hfound
    exact ⟨hsize, tree, d, rfl, hd,
      readTree_of_definition_text hsize htree (List.mem_of_getElem? hd)⟩

end HslTree
