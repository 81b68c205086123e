import HslTree.Proofs.Sketch

/-! Programs as abstract syntax, and how they are written: the sketch of a program follows the
grammar, and its words can be read. -/

namespace HslTree

open scoped Computability

structure Name where
  text : List Char
  identifier : isIdentifier text = true
  free : text ∉ reservedNames
deriving DecidableEq

structure Numeral where
  text : List Char
  numeral : isNumeral text = true
deriving DecidableEq

structure Letter where
  char : Char
  alpha : char.isAlpha = true
deriving DecidableEq

inductive Truth
  | pointOfView
  | impossible
deriving DecidableEq

inductive Literal
  | integer (negative : Bool) (digits : Numeral)
  | string (units : List StringUnit)
  | char (letter : Letter)
  | bool (truth : Truth)
deriving DecidableEq

inductive Expression
  | name (name : Name)
  | literal (literal : Literal)
deriving DecidableEq

inductive Introduction
  | resistance
  | force
  | pilot
deriving DecidableEq

inductive Assignment
  | father
  | judge
deriving DecidableEq

inductive Statement
  | call (callee : Name) (arguments : List Expression)
  | declaration (introduction : Introduction) (name : Name) (assignment : Assignment)
      (value : Expression)
deriving DecidableEq

/-- A name that may take a number of further arguments. -/
structure Signature where
  name : Name
  count? : Option Numeral
deriving DecidableEq

inductive Definition
  | externBlock (signatures : List Signature)
  | function (signature : Signature) (body : List Statement)
deriving DecidableEq

structure Program where
  definitions : List Definition
deriving DecidableEq

def Truth.kind : Truth → Kind
  | pointOfView => .pointOfView
  | impossible => .impossible

def Introduction.kind : Introduction → Kind
  | resistance => .declareResistance
  | force => .declareForce
  | pilot => .declarePilot

def Assignment.kind : Assignment → Kind
  | father => .assignFather
  | judge => .assignJudge

def keyword (kind : Kind) : Sketch := .leaf ⟨kind, (kind.phrase?.getD "").toList⟩

def Name.sketch (name : Name) : Sketch := .leaf ⟨.identifier, name.text⟩

def Numeral.lexeme (digits : Numeral) : Lexeme := ⟨.number, digits.text⟩

def integerLexemes (negative : Bool) (digits : Numeral) : List Lexeme :=
  if negative then [⟨.minus, ['-']⟩, digits.lexeme] else [digits.lexeme]

def Literal.sketch : Literal → Sketch
  | integer negative digits =>
    .node .literal [.node .integer ((integerLexemes negative digits).map .leaf)]
  | string units => .node .literal [.node .string ((stringLexemes units).map .leaf)]
  | char letter => .node .literal [.node .char [.leaf ⟨.char, ['\'', letter.char, '\'']⟩]]
  | bool truth => .node .literal [.node .bool [keyword truth.kind]]

def Expression.sketch : Expression → Sketch
  | name n => .node .expression [n.sketch]
  | literal l => .node .expression [l.sketch]

def Statement.sketch : Statement → Sketch
  | call callee arguments =>
    .node .statement [.node .call
      (keyword .callOpen :: callee.sketch ::
        (arguments.map Expression.sketch ++ [keyword .callClose]))]
  | declaration introduction name assignment value =>
    .node .statement [.node .declaration
      [keyword introduction.kind, name.sketch, keyword assignment.kind, value.sketch]]

/-- What is written of the number of further arguments. -/
def countSketches : Option Numeral → List Sketch
  | some count => [.node .variadic [keyword .variadic, .leaf count.lexeme]]
  | none => []

def Signature.sketches (signature : Signature) : List Sketch :=
  signature.name.sketch :: countSketches signature.count?

def Definition.sketch : Definition → Sketch
  | externBlock signatures =>
    .node .externBlock (keyword .externOpen ::
      (signatures.flatMap Signature.sketches ++ [keyword .externClose]))
  | function signature body =>
    .node .function (keyword .functionOpen :: signature.name.sketch :: keyword .functionMiddle ::
      (countSketches signature.count? ++ body.map Statement.sketch ++ [keyword .functionClose]))

def Program.sketch (program : Program) : Sketch :=
  .node .sourceFile (program.definitions.map Definition.sketch)

section Valid

open Sketch

theorem keyword_valid {kind : Kind} (h : kind.phrase?.isSome = true) : (keyword kind).Valid := by
  obtain ⟨words, hwords⟩ := Option.isSome_iff_exists.mp h
  obtain ⟨p, hp, rfl⟩ := Option.map_eq_some_iff.mp hwords
  have hmem := List.mem_of_find?_eq_some hp
  have hkind : p.kind = kind := by simpa using List.find?_some hp
  have hextras : ∀ p ∈ Phrase.all, p.kind.isExtra = false := by decide
  subst hkind
  rw [keyword, hwords]
  exact .leaf (legible_phrase hmem) (hextras p hmem)

theorem Name.sketch_valid (name : Name) : name.sketch.Valid :=
  .leaf (legible_identifier name.identifier name.free) rfl

theorem valid_single {kind : NodeKind} (hkind : kind.isTight = false) {s : Sketch} (hs : s.Valid)
    (hsymbol : [s.symbol] ∈ production kind) : (node kind [s]).Valid :=
  .node hkind (by simpa using hs) (by simpa using hsymbol)

theorem Literal.sketch_symbol (literal : Literal) : literal.sketch.symbol = .node .literal := by
  cases literal <;> rfl

theorem Expression.sketch_symbol (e : Expression) : e.sketch.symbol = .node .expression := by
  cases e <;> rfl

theorem Statement.sketch_symbol (s : Statement) : s.sketch.symbol = .node .statement := by
  cases s <;> rfl

theorem flatMap_mem_kstar {α : Type} {f : α → List Symbol} {L : Language Symbol} (xs : List α)
    (h : ∀ x ∈ xs, f x ∈ L) : xs.flatMap f ∈ L∗ := by
  refine Language.join_mem_kstar fun y hy => ?_
  obtain ⟨x, hx, rfl⟩ := List.mem_map.mp hy
  exact h x hx

theorem map_mem_kstar {α : Type} {f : α → Symbol} {L : Language Symbol} (xs : List α)
    (h : ∀ x ∈ xs, [f x] ∈ L) : xs.map f ∈ L∗ := by
  rw [List.map_eq_flatMap]
  exact flatMap_mem_kstar xs h

theorem integerLexemes_valid (negative : Bool) (digits : Numeral) :
    (node .integer ((integerLexemes negative digits).map .leaf)).Valid := by
  refine .word rfl ?_ ?_ ?_
  · cases negative with
    | true => exact legible_negative digits.numeral
    | false => exact legible_number digits.numeral
  · cases negative <;> simp [integerLexemes, Numeral.lexeme, Kind.isExtra]
  · cases negative <;>
      simp [integerLexemes, Numeral.lexeme, production, Language.mem_mul, Language.mem_add,
        -add_eq_sup]

theorem stringLexemes_valid (units : List StringUnit) :
    (node .string ((stringLexemes units).map .leaf)).Valid := by
  have hkinds (l : Lexeme) (hl : l ∈ StringUnit.lexemes units) :
      l.kind = .content ∨ l.kind = .escape := StringUnit.kind_of_mem_lexemes l hl
  refine .word rfl (legible_string units) ?_ ?_
  · intro l hl
    simp only [stringLexemes, List.mem_cons, List.mem_append, List.not_mem_nil, or_false] at hl
    rcases hl with rfl | hl | rfl
    · rfl
    · rcases hkinds l hl with h | h <;> rw [h] <;> rfl
    · rfl
  · have hbody : (StringUnit.lexemes units).map (Symbol.token ·.kind) ∈
        (aToken .content + aToken .escape)∗ := by
      refine map_mem_kstar _ fun l hl => ?_
      rcases hkinds l hl with h | h <;> simp [h, Language.mem_add, -add_eq_sup]
    have hquote : [Symbol.token .quote] ∈ aToken .quote := rfl
    have hmem : _ ∈ production .string :=
      Language.append_mem_mul (Language.append_mem_mul hquote hbody) hquote
    simpa [stringLexemes] using hmem

theorem Literal.sketch_valid (literal : Literal) : literal.sketch.Valid := by
  cases literal with
  | integer negative digits =>
    refine valid_single rfl (integerLexemes_valid negative digits) ?_
    simp [symbol, production, Language.mem_add, -add_eq_sup]
  | string units =>
    refine valid_single rfl (stringLexemes_valid units) ?_
    simp [symbol, production, Language.mem_add, -add_eq_sup]
  | char letter =>
    refine valid_single rfl (valid_single rfl (.leaf (legible_char letter.alpha) rfl) rfl) ?_
    simp [symbol, production, Language.mem_add, -add_eq_sup]
  | bool truth =>
    refine valid_single rfl (valid_single rfl (keyword_valid ?_) ?_) ?_
    · cases truth <;> decide
    · cases truth <;>
        simp [keyword, Truth.kind, symbol, production, Language.mem_add, -add_eq_sup]
    · simp [symbol, production, Language.mem_add, -add_eq_sup]

theorem Expression.sketch_valid (e : Expression) : e.sketch.Valid := by
  cases e with
  | name name =>
    refine valid_single rfl name.sketch_valid ?_
    simp [Name.sketch, symbol, production, Language.mem_add, -add_eq_sup]
  | literal literal =>
    refine valid_single rfl literal.sketch_valid ?_
    simp [literal.sketch_symbol, production, Language.mem_add, -add_eq_sup]

theorem call_valid (callee : Name) (arguments : List Expression) :
    (node .call (keyword .callOpen :: callee.sketch ::
      (arguments.map Expression.sketch ++ [keyword .callClose]))).Valid := by
  refine .node rfl ?_ ?_
  · simp only [List.mem_cons, List.mem_append, List.mem_map, List.not_mem_nil, or_false]
    rintro s (rfl | rfl | ⟨e, _, rfl⟩ | rfl)
    · exact keyword_valid (by decide)
    · exact callee.sketch_valid
    · exact e.sketch_valid
    · exact keyword_valid (by decide)
  · have hopen : [(keyword .callOpen).symbol, callee.sketch.symbol] ∈
        aToken .callOpen * aToken .identifier := Language.append_mem_mul (a := [_]) rfl rfl
    have harguments : arguments.map (·.sketch.symbol) ∈ (aNode .expression)∗ :=
      map_mem_kstar _ fun e _ => by rw [e.sketch_symbol]; rfl
    have hclose : [(keyword .callClose).symbol] ∈ aToken .callClose := rfl
    have hmem : _ ∈ production .call :=
      Language.append_mem_mul (Language.append_mem_mul hopen harguments) hclose
    simpa [Function.comp_def] using hmem

theorem declaration_valid (introduction : Introduction) (name : Name) (assignment : Assignment)
    (value : Expression) :
    (node .declaration [keyword introduction.kind, name.sketch, keyword assignment.kind,
      value.sketch]).Valid := by
  refine .node rfl ?_ ?_
  · simp only [List.mem_cons, List.not_mem_nil, or_false]
    rintro s (rfl | rfl | rfl | rfl)
    · exact keyword_valid (by cases introduction <;> decide)
    · exact name.sketch_valid
    · exact keyword_valid (by cases assignment <;> decide)
    · exact value.sketch_valid
  · have hintroduction : [(keyword introduction.kind).symbol] ∈
        aToken .declareResistance + aToken .declareForce + aToken .declarePilot := by
      cases introduction <;>
        simp [keyword, Introduction.kind, symbol, Language.mem_add, -add_eq_sup]
    have hname : [name.sketch.symbol] ∈ aToken .identifier := rfl
    have hassignment : [(keyword assignment.kind).symbol] ∈
        aToken .assignFather + aToken .assignJudge := by
      cases assignment <;> simp [keyword, Assignment.kind, symbol, Language.mem_add, -add_eq_sup]
    have hvalue : [value.sketch.symbol] ∈ aNode .expression := by
      rw [value.sketch_symbol]
      rfl
    exact Language.append_mem_mul (Language.append_mem_mul
      (Language.append_mem_mul hintroduction hname) hassignment) hvalue

theorem Statement.sketch_valid (s : Statement) : s.sketch.Valid := by
  cases s with
  | call callee arguments =>
    refine valid_single rfl (call_valid callee arguments) ?_
    simp [symbol, production, Language.mem_add, -add_eq_sup]
  | declaration introduction name assignment value =>
    refine valid_single rfl (declaration_valid introduction name assignment value) ?_
    simp [symbol, production, Language.mem_add, -add_eq_sup]

theorem countSketches_valid (count? : Option Numeral) : ∀ s ∈ countSketches count?, s.Valid := by
  cases count? with
  | none => simp [countSketches]
  | some count =>
    simp only [countSketches, List.mem_singleton]
    rintro s rfl
    refine .node rfl ?_ (Language.append_mem_mul (a := [_]) rfl rfl)
    simp only [List.mem_cons, List.not_mem_nil, or_false]
    rintro s (rfl | rfl)
    · exact keyword_valid (by decide)
    · exact .leaf (legible_number count.numeral) rfl

theorem countSketches_symbols (count? : Option Numeral) :
    (countSketches count?).map symbol ∈ 1 + aNode .variadic := by
  cases count? <;> simp [countSketches, symbol, Language.mem_add, -add_eq_sup]

theorem externBlock_valid (signatures : List Signature) :
    (Definition.externBlock signatures).sketch.Valid := by
  refine .node rfl ?_ ?_
  · simp only [List.mem_cons, List.mem_append, List.mem_flatMap, Signature.sketches,
      List.not_mem_nil, or_false]
    rintro s (rfl | ⟨signature, _, rfl | hs⟩ | rfl)
    · exact keyword_valid (by decide)
    · exact signature.name.sketch_valid
    · exact countSketches_valid signature.count? s hs
    · exact keyword_valid (by decide)
  · have hopen : [(keyword .externOpen).symbol] ∈ aToken .externOpen := rfl
    have hsignatures : signatures.flatMap (·.sketches.map symbol) ∈
        (aToken .identifier * (1 + aNode .variadic))∗ :=
      flatMap_mem_kstar _ fun s _ =>
        Language.append_mem_mul (a := [_]) rfl (countSketches_symbols s.count?)
    have hclose : [(keyword .externClose).symbol] ∈ aToken .externClose := rfl
    have hmem : _ ∈ production .externBlock :=
      Language.append_mem_mul (Language.append_mem_mul hopen hsignatures) hclose
    simpa [List.map_flatMap] using hmem

theorem function_valid (signature : Signature) (body : List Statement) :
    (Definition.function signature body).sketch.Valid := by
  refine .node rfl ?_ ?_
  · simp only [List.mem_cons, List.mem_append, List.mem_map, List.not_mem_nil, or_false]
    rintro s (rfl | rfl | rfl | (hs | ⟨statement, _, rfl⟩) | rfl)
    · exact keyword_valid (by decide)
    · exact signature.name.sketch_valid
    · exact keyword_valid (by decide)
    · exact countSketches_valid signature.count? s hs
    · exact statement.sketch_valid
    · exact keyword_valid (by decide)
  · have hopen : [(keyword .functionOpen).symbol, signature.name.sketch.symbol] ∈
        aToken .functionOpen * aToken .identifier := Language.append_mem_mul (a := [_]) rfl rfl
    have hmiddle : [(keyword .functionMiddle).symbol] ∈ aToken .functionMiddle := rfl
    have hcount := countSketches_symbols signature.count?
    have hbody : body.map (·.sketch.symbol) ∈ (aNode .statement)∗ :=
      map_mem_kstar _ fun s _ => by rw [s.sketch_symbol]; rfl
    have hclose : [(keyword .functionClose).symbol] ∈ aToken .functionClose := rfl
    have hmem : _ ∈ production .function :=
      Language.append_mem_mul (Language.append_mem_mul (Language.append_mem_mul
        (Language.append_mem_mul hopen hmiddle) hcount) hbody) hclose
    simpa [Function.comp_def] using hmem

theorem Program.sketch_valid (program : Program) : program.sketch.Valid := by
  refine .node rfl ?_ ?_
  · simp only [List.mem_map]
    rintro s ⟨definition, _, rfl⟩
    cases definition with
    | externBlock signatures => exact externBlock_valid signatures
    | function signature body => exact function_valid signature body
  · have hmem : program.definitions.map (·.sketch.symbol) ∈ production .sourceFile := by
      refine map_mem_kstar _ fun d _ => ?_
      cases d <;> simp [Definition.sketch, symbol, Language.mem_add, -add_eq_sup]
    simpa [Function.comp_def] using hmem

end Valid

end HslTree
