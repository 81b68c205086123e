import HslTree.Grammar.Draft
import HslTree.Grammar.Rule

/-! Parsing: the steps of each rule, and whole files. Every choice is made on one token ahead. -/

namespace HslTree

open Builder

def declarationIntros : List Kind := [.declareResistance, .declareForce, .declarePilot]

def declarationAssigns : List Kind := [.assignFather, .assignJudge]

namespace Rule

/-- One name of an extern block, with a count if it is variadic. A count may follow a name only,
so the kinds allowed next depend on what was read last. -/
def externName (run : Rule → Reader Tree) (expected : List Kind) :
    Builder (Option (List Kind)) := do
  if (← current).kind = .externClose then return none
  mark .name (← expectOf .identifier expected)
  if (← current).kind = .variadic then
    let _ ← child (run .variadic)
    return some [.identifier, .externClose]
  else return some [.identifier, .variadic, .externClose]

def bodyStatement (grammar : Grammar) (run : Rule → Reader Tree) (expected : List Kind) :
    Builder (Option (List Kind)) := do
  let token ← current
  if token.kind = .functionClose then return none
  if (grammar.statements token.kind).isNone then throw (token.unexpected expected)
  let _ ← child (run .statement)
  return some (grammar.statements.keys ++ [.functionClose])

def argument (grammar : Grammar) (run : Rule → Reader Tree) : Builder (Option Unit) := do
  let token ← current
  if token.kind = .callClose then return none
  if token.kind ≠ .identifier ∧ (grammar.literals token.kind).isNone then
    throw (token.unexpected (grammar.expressionStarts ++ [.callClose]))
  let _ ← child (run .expression)
  return some ()

/-- One part of a string. No extras may stand between the quotes. -/
def stringPart : Builder (Option Unit) := do
  let token ← next
  if token.kind = .content ∨ token.kind = .escape then
    let _ ← advance
    return some ()
  else return none

/-- Wraps the node of the rule that the current token opens. -/
def choice (kind : NodeKind) (table : RuleTable) (run : Rule → Reader Tree) : Reader Tree := do
  let token := (← get).current
  match table token.kind with
  | some rule => build kind (discard (child (run rule)))
  | none => throw (token.unexpected table.keys)

def steps (grammar : Grammar) (run : Rule → Reader Tree) : Rule → Reader Tree
  | externBlock => build .externBlock do
    let _ ← expect .externOpen
    iterate (externName run) [.identifier, .externClose]
    let _ ← expect .externClose
  | function => build .function do
    let _ ← expect .functionOpen
    mark .name (← expect .identifier)
    let _ ← expect .functionMiddle
    let starts := grammar.statements.keys ++ [.functionClose]
    -- A count may stand in front of the first statement only.
    if (← current).kind = .variadic then
      let _ ← child (run .variadic)
      iterate (bodyStatement grammar run) starts
    else
      iterate (bodyStatement grammar run) (starts ++ [.variadic])
    let _ ← expect .functionClose
  | variadic => build .variadic do
    let _ ← expect .variadic
    mark .variadic (← expect .number)
  | statement => choice .statement grammar.statements run
  | declaration => build .declaration do
    let _ ← expectOneOf declarationIntros
    let _ ← expect .identifier
    let _ ← expectOneOf declarationAssigns
    let _ ← child (run .expression)
  | call => build .call do
    let _ ← expect .callOpen
    mark .name (← expect .identifier)
    iterate (fun _ => argument grammar run) ()
    let _ ← expect .callClose
  | expression => build .expression do
    let token ← current
    if token.kind = .identifier then
      let _ ← advance
    else if (grammar.literals token.kind).isSome then
      let _ ← child (run .literal)
    else throw (token.unexpected grammar.expressionStarts)
  | literal => choice .literal grammar.literals run
  | integer => build .integer do
    if (← current).kind = .minus then
      let _ ← advance
      -- The digits stand right behind their sign.
      let _ ← expectNext .number [.number]
    else
      let _ ← expect .number
  | string => build .string do
    let _ ← expect .quote
    iterate (fun _ => stringPart) ()
    let _ ← expectNext .quote [.content, .escape, .quote]
  | char => build .char do
    let _ ← expect .char
  | bool => build .bool do
    let _ ← expectOneOf [.pointOfView, .impossible]

def parseWithin (grammar : Grammar) : Nat → Rule → Reader Tree
  | 0, _ => do throw ((← get).current.unexpected [])
  | depth + 1, rule => rule.steps grammar (parseWithin grammar depth)

/-- The number of rules: so many can start at one token without one of them coming twice. -/
def chainLimit : Nat := 12

/-- Runs a rule. A rule that comes twice at one token would come there for ever, so the number of
tokens bounds the depth of every parse that ends. Tables that send a rule back to itself without
reading a token have no such parse, and the bound stops them. -/
def parse (grammar : Grammar) (rule : Rule) : Reader Tree := fun stream =>
  rule.parseWithin grammar (chainLimit * (stream.pending.length + 1)) stream

end Rule

def definition (grammar : Grammar) : Builder (Option Unit) := do
  let token ← current
  if token.kind = .endOfInput then return none
  match grammar.definitions token.kind with
  | some rule =>
    let _ ← child (rule.parse grammar)
    return some ()
  | none => throw (token.unexpected (grammar.definitions.keys ++ [.endOfInput]))

def sourceFile (grammar : Grammar) : Builder Unit := do
  iterate (fun _ => definition grammar) ()
  flushExtras

def parseTokens (file : String) (tokens : List Token) : Except Diagnostic Tree :=
  match sourceFile .standard ⟨.ofTokens file tokens, .empty .sourceFile⟩ with
  | .ok _ frame => .ok (frame.draft.finish (.at file 0))
  | .error diagnostic _ => .error diagnostic

end HslTree
