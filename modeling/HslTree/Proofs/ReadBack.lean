import HslTree.Proofs.Program

/-! Reading a program off a tree. Nothing of a program is lost when it is printed and parsed. -/

namespace HslTree

def plainUnit? (c : Char) : Option StringUnit :=
  if hc : isPlain c = true then some (.plain c hc) else none

def escapeUnit? (body : List Char) : Option StringUnit :=
  if hbody : IsEscape body then some (.escape body hbody) else none

namespace Lexeme

/-- The units that a lexeme of a string stands for. -/
def units? (lexeme : Lexeme) : Option (List StringUnit) :=
  match lexeme.kind, lexeme.text with
  | .content, run => run.mapM plainUnit?
  | .escape, _ :: body => (escapeUnit? body).map ([·])
  | .quote, _ => some []
  | _, _ => none

def numeral? (lexeme : Lexeme) : Option Numeral :=
  if h : lexeme.kind = .number ∧ isNumeral lexeme.text = true then some ⟨lexeme.text, h.2⟩ else none

def letter? (lexeme : Lexeme) : Option Letter :=
  match lexeme.kind, lexeme.text with
  | .char, [_, c, _] => if hc : c.isAlpha = true then some ⟨c, hc⟩ else none
  | _, _ => none

def truth? (lexeme : Lexeme) : Option Truth :=
  match lexeme.kind with
  | .pointOfView => some .pointOfView
  | .impossible => some .impossible
  | _ => none

end Lexeme

def unitsOf? : List Lexeme → Option (List StringUnit)
  | [] => some []
  | lexeme :: rest => do return (← lexeme.units?) ++ (← unitsOf? rest)

/-- The literal that the lexemes of a node say. -/
def literalOf? : NodeKind → List Lexeme → Option Literal
  | .integer, [digits] => digits.numeral?.map (.integer false)
  | .integer, [_, digits] => digits.numeral?.map (.integer true)
  | .string, lexemes => (unitsOf? lexemes).map .string
  | .char, [lexeme] => lexeme.letter?.map .char
  | .bool, [lexeme] => lexeme.truth?.map .bool
  | _, _ => none

namespace Sketch

def kind? : Sketch → Option Kind
  | leaf lexeme => some lexeme.kind
  | node .. => none

def name? : Sketch → Option Name
  | leaf ⟨.identifier, text⟩ =>
    if h : isIdentifier text = true ∧ text ∉ reservedNames then some ⟨text, h.1, h.2⟩ else none
  | _ => none

def literal? : Sketch → Option Literal
  | node .literal [node kind parts] => literalOf? kind (wordsOf parts).flatten
  | _ => none

def expression? : Sketch → Option Expression
  | node .expression [leaf lexeme] => (leaf lexeme).name?.map .name
  | node .expression [node kind parts] => (node kind parts).literal?.map .literal
  | _ => none

def introduction? (s : Sketch) : Option Introduction :=
  match s.kind? with
  | some .declareResistance => some .resistance
  | some .declareForce => some .force
  | some .declarePilot => some .pilot
  | _ => none

def assignment? (s : Sketch) : Option Assignment :=
  match s.kind? with
  | some .assignFather => some .father
  | some .assignJudge => some .judge
  | _ => none

def statement? : Sketch → Option Statement
  | node .statement [node .call (_ :: callee :: rest)] => do
    return .call (← callee.name?) (← rest.dropLast.mapM expression?)
  | node .statement [node .declaration [introduction, name, assignment, value]] => do
    return .declaration (← introduction.introduction?) (← name.name?) (← assignment.assignment?)
      (← value.expression?)
  | _ => none

def count? : List Sketch → Option Numeral
  | [_, leaf lexeme] => lexeme.numeral?
  | _ => none

def signatures? : List Sketch → Option (List Signature)
  | [] => some []
  | name :: node .variadic parts :: rest => do
    return ⟨← name.name?, some (← count? parts)⟩ :: (← signatures? rest)
  | name :: rest => do return ⟨← name.name?, none⟩ :: (← signatures? rest)

def function? (name : Sketch) : List Sketch → Option Definition
  | node .variadic parts :: body => do
    return .function ⟨← name.name?, some (← count? parts)⟩ (← body.mapM statement?)
  | body => do return .function ⟨← name.name?, none⟩ (← body.mapM statement?)

def definition? : Sketch → Option Definition
  | node .externBlock (_ :: rest) => (signatures? rest.dropLast).map .externBlock
  | node .function (_ :: name :: _ :: rest) => function? name rest.dropLast
  | _ => none

def program? : Sketch → Option Program
  | node .sourceFile parts => (parts.mapM definition?).map .mk
  | _ => none

end Sketch

/-- The program that a tree says. -/
def Tree.program? (tree : Tree) : Option Program := tree.sketch.program?

section Units

theorem mapM_map_eq_some {α β : Type} {f : α → β} {g : β → Option α} (h : ∀ x, g (f x) = some x)
    (xs : List α) : (xs.map f).mapM g = some xs := by
  induction xs with
  | nil => rfl
  | cons x xs ih => simp [h, ih]

theorem units?_join {l m : Lexeme} (hl : l.isRun = true) (hm : m.isRun = true) :
    (l.join m).units? = do return (← l.units?) ++ (← m.units?) := by
  have hlkind : l.kind = .content := by simpa [Lexeme.isRun] using hl
  have hmkind : m.kind = .content := by simpa [Lexeme.isRun] using hm
  simp [Lexeme.units?, Lexeme.join, hlkind, hmkind, List.mapM_append]

theorem unitsOf?_glue (l : Lexeme) (ms : List Lexeme) :
    unitsOf? (glue Lexeme.isRun Lexeme.join l ms) = unitsOf? (l :: ms) := by
  cases ms with
  | nil => rfl
  | cons m ms =>
    by_cases hrun : (l.isRun && m.isRun) = true
    · obtain ⟨hl, hm⟩ := Bool.and_eq_true_iff.mp hrun
      simp [glue, hrun, unitsOf?, units?_join hl hm, Option.bind_assoc]
    · simp [glue, hrun]

theorem unitsOf?_mergeLexemes (ls : List Lexeme) : unitsOf? (mergeLexemes ls) = unitsOf? ls := by
  induction ls with
  | nil => rfl
  | cons l ls ih => rw [mergeLexemes_cons, unitsOf?_glue, unitsOf?, unitsOf?, ih]

theorem unitsOf?_append (ls ms : List Lexeme) :
    unitsOf? (ls ++ ms) = do return (← unitsOf? ls) ++ (← unitsOf? ms) := by
  induction ls with
  | nil => simp [unitsOf?]
  | cons l ls ih => simp [unitsOf?, ih, Option.bind_assoc]

theorem unitsOf?_pieces (ae : Bool) (units : List StringUnit) :
    unitsOf? (StringUnit.pieces ae units) = some units := by
  induction units generalizing ae with
  | nil => rfl
  | cons unit units ih =>
    cases unit with
    | plain c hc => simp [StringUnit.pieces, unitsOf?, Lexeme.units?, plainUnit?, hc, ih]
    | escape body hbody =>
      cases ae <;>
        simp [StringUnit.pieces, escapeLexemes, unitsOf?, Lexeme.units?, escapeUnit?, hbody, ih]

theorem unitsOf?_stringLexemes (units : List StringUnit) :
    unitsOf? (stringLexemes units) = some units := by
  have hbody : unitsOf? (StringUnit.lexemes units) = some units := by
    rw [StringUnit.lexemes, unitsOf?_mergeLexemes, unitsOf?_pieces]
  simp [stringLexemes, unitsOf?, unitsOf?_append, hbody, Lexeme.units?]

end Units

section ReadBack

open Sketch

theorem Numeral.numeral?_lexeme (digits : Numeral) : digits.lexeme.numeral? = some digits := by
  simp [Numeral.lexeme, Lexeme.numeral?, digits.numeral]

theorem Name.name?_sketch (name : Name) : name.sketch.name? = some name := by
  simp [Name.sketch, Sketch.name?, name.identifier, name.free]

theorem Literal.literal?_sketch (literal : Literal) : literal.sketch.literal? = some literal := by
  cases literal with
  | integer negative digits =>
    simp only [Literal.sketch, Sketch.literal?, flatten_wordsOf_leaves]
    cases negative <;> simp [integerLexemes, literalOf?, digits.numeral?_lexeme]
  | string units =>
    simp only [Literal.sketch, Sketch.literal?, flatten_wordsOf_leaves]
    simp [literalOf?, unitsOf?_stringLexemes]
  | char letter =>
    simp [Literal.sketch, Sketch.literal?, wordsOf, words, literalOf?, Lexeme.letter?, letter.alpha]
  | bool truth =>
    cases truth <;>
      simp [Literal.sketch, Sketch.literal?, wordsOf, words, keyword, literalOf?, Lexeme.truth?,
        Truth.kind]

theorem Expression.expression?_sketch (e : Expression) : e.sketch.expression? = some e := by
  cases e with
  | name name =>
    have hname : Sketch.name? (.leaf ⟨.identifier, name.text⟩) = some name := name.name?_sketch
    simp [Expression.sketch, Sketch.expression?, Name.sketch, hname]
  | literal literal =>
    have hliteral := literal.literal?_sketch
    cases literal <;>
      simpa [Expression.sketch, Sketch.expression?, Literal.sketch] using hliteral

theorem Statement.statement?_sketch (s : Statement) : s.sketch.statement? = some s := by
  cases s with
  | call callee arguments =>
    have harguments := mapM_map_eq_some Expression.expression?_sketch arguments
    simp [Statement.sketch, Sketch.statement?, callee.name?_sketch, harguments]
  | declaration introduction name assignment value =>
    have hintroduction : (keyword introduction.kind).introduction? = some introduction := by
      cases introduction <;> rfl
    have hassignment : (keyword assignment.kind).assignment? = some assignment := by
      cases assignment <;> rfl
    simp [Statement.sketch, Sketch.statement?, hintroduction, hassignment, name.name?_sketch,
      value.expression?_sketch]

theorem signatures?_of_no_count {name : Sketch} {rest : List Sketch}
    (h : ∀ s ∈ rest.head?, s.symbol ≠ .node .variadic) :
    signatures? (name :: rest) = do return ⟨← name.name?, none⟩ :: (← signatures? rest) := by
  rw [signatures?]
  rintro parts tail rfl
  exact h _ rfl rfl

theorem function?_of_no_count {name : Sketch} {body : List Sketch}
    (h : ∀ s ∈ body.head?, s.symbol ≠ .node .variadic) :
    function? name body = do
      return .function ⟨← name.name?, none⟩ (← body.mapM statement?) := by
  rw [function?]
  rintro parts tail rfl
  exact h _ rfl rfl

theorem signatures?_sketches (signatures : List Signature) :
    signatures? (signatures.flatMap Signature.sketches) = some signatures := by
  induction signatures with
  | nil => rfl
  | cons signature signatures ih =>
    obtain ⟨name, count?⟩ := signature
    rw [List.flatMap_cons, Signature.sketches]
    cases count? with
    | some count =>
      have hcount : Sketch.count? [keyword .variadic, leaf count.lexeme] = some count :=
        count.numeral?_lexeme
      rw [countSketches, List.cons_append, List.singleton_append, signatures?, ih,
        name.name?_sketch, hcount]
      rfl
    | none =>
      have hhead : ∀ s ∈ (signatures.flatMap Signature.sketches).head?,
          s.symbol ≠ .node .variadic := by
        cases signatures with
        | nil => simp
        | cons next signatures => simp [Signature.sketches, Name.sketch, symbol]
      rw [countSketches, List.singleton_append, signatures?_of_no_count hhead, ih,
        name.name?_sketch]
      rfl

theorem function?_sketch (signature : Signature) (body : List Statement) :
    function? signature.name.sketch (countSketches signature.count? ++ body.map Statement.sketch) =
      some (.function signature body) := by
  have hbody := mapM_map_eq_some Statement.statement?_sketch body
  obtain ⟨name, count?⟩ := signature
  cases count? with
  | some count =>
    have hcount : Sketch.count? [keyword .variadic, leaf count.lexeme] = some count :=
      count.numeral?_lexeme
    rw [countSketches, List.singleton_append, function?, hbody, name.name?_sketch, hcount]
    rfl
  | none =>
    have hhead : ∀ s ∈ (body.map Statement.sketch).head?, s.symbol ≠ .node .variadic := by
      cases body with
      | nil => simp
      | cons statement body => simp [statement.sketch_symbol]
    rw [countSketches, List.nil_append, function?_of_no_count hhead, hbody, name.name?_sketch]
    rfl

theorem Definition.definition?_sketch (d : Definition) : d.sketch.definition? = some d := by
  cases d with
  | externBlock signatures =>
    simp [Definition.sketch, Sketch.definition?, signatures?_sketches]
  | function signature body =>
    have hfunction := function?_sketch signature body
    simp only [Definition.sketch, Sketch.definition?, List.dropLast_concat, hfunction]

theorem Program.program?_sketch (program : Program) : program.sketch.program? = some program := by
  have hdefinitions := mapM_map_eq_some Definition.definition?_sketch program.definitions
  simp [Program.sketch, Sketch.program?, hdefinitions]

end ReadBack

/-- The text of a program: its tokens with a line feed between any two of them, but for those of a
string and those of a negative number. -/
def Program.print (program : Program) : String := program.sketch.print

example :
    let f : Name := ⟨"f".toList, by decide, by decide⟩
    let seven : Expression := .literal (.integer true ⟨"0x7".toList, by decide⟩)
    let text : Expression :=
      .literal (.string [.plain ' ' (by decide), .escape ['n'] (.single (by decide) (by decide))])
    Program.print ⟨[.function ⟨f, none⟩ [.call f [seven, text]]]⟩ =
      "A long time ago in a\nf\nfar, far away...\nExecute order\nf\n-0x7\n\" \\n\"\n" ++
        "Order executed\nMay the force be with you." := by
  decide +kernel

/-- Every program is read back from its text. -/
theorem readTree_print_program (program : Program) (label? : Option String) :
    ∃ tree, Lexicon.standard.readTree program.print label? = .ok tree ∧
      tree.sketch = program.sketch ∧ tree.program? = some program := by
  obtain ⟨tree, htree, hsketch⟩ := program.sketch_valid.readTree_print rfl label?
  exact ⟨tree, htree, hsketch, by rw [Tree.program?, hsketch, program.program?_sketch]⟩

end HslTree
