import HslTree.Grammar.Stream
import HslTree.Tree.Basic

/-! Drafts: nodes while they are built from a stream. Every token that is read goes into the draft,
the extras in front of it first. -/

namespace HslTree

structure Draft where
  kind : NodeKind
  children : List Tree
  fields : List (Field × Nat)
deriving DecidableEq, Repr

namespace Draft

def empty (kind : NodeKind) : Draft := ⟨kind, [], []⟩

def push (draft : Draft) (trees : List Tree) : Draft :=
  { draft with children := draft.children ++ trees }

def mark (draft : Draft) (field : Field) (index : Nat) : Draft :=
  { draft with fields := draft.fields ++ [(field, index)] }

/-- The node spans its children from the first to the last. Without children it is an empty node
at the given position. -/
def finish (draft : Draft) (emptyAt : Position) : Tree :=
  let span := match draft.children.head?, draft.children.getLast? with
    | some first, some last => ⟨first.span.start, last.span.stop⟩
    | _, _ => .empty emptyAt
  .node draft.kind draft.children draft.fields span

end Draft

structure Frame where
  stream : Stream
  draft : Draft
deriving DecidableEq, Repr

namespace Frame

def flushExtras (frame : Frame) : Frame :=
  ⟨frame.stream.dropExtras, frame.draft.push (frame.stream.extras.map .leaf)⟩

/-- Moves the next token into the draft. The end mark stays in the stream as well. -/
def take (frame : Frame) : Frame :=
  match frame.stream.pending with
  | [] => { frame with draft := frame.draft.push [.leaf frame.stream.last] }
  | token :: rest =>
    ⟨{ frame.stream with pending := rest }, frame.draft.push [.leaf token]⟩

end Frame

/-- Rules read from a stream. What they have read stays read when they fail. -/
abbrev Reader := EStateM Diagnostic Stream

abbrev Builder := EStateM Diagnostic Frame

namespace Builder

def current : Builder Token := return (← get).stream.current

def next : Builder Token := return (← get).stream.next

def lastIndex : Builder Nat := return (← get).draft.children.length - 1

def flushExtras : Builder Unit := modify Frame.flushExtras

/-- Moves the current token and the extras in front of it into the draft, and answers the index of
the token. -/
def advance : Builder Nat := do
  modify Frame.flushExtras
  modify Frame.take
  lastIndex

/-- Takes a token of one kind; if another stands there, `expected` is what is reported. -/
def expectOf (kind : Kind) (expected : List Kind) : Builder Nat := do
  let token ← current
  if token.kind = kind then advance else throw (token.unexpected expected)

def expect (kind : Kind) : Builder Nat := expectOf kind [kind]

def expectOneOf (kinds : List Kind) : Builder Nat := do
  let token ← current
  if token.kind ∈ kinds then advance else throw (token.unexpected kinds)

/-- Takes a token of one kind that has to come next, with no extras in front of it. -/
def expectNext (kind : Kind) (expected : List Kind) : Builder Nat := do
  let token ← next
  if token.kind = kind then advance else throw (token.unexpected expected)

def onStream (rule : Reader Tree) : Builder Tree := fun frame =>
  match rule frame.stream with
  | .ok tree stream => .ok tree { frame with stream }
  | .error diagnostic stream => .error diagnostic { frame with stream }

/-- Adds the node of a rule. The extras in front of it stay outside that node. -/
def child (rule : Reader Tree) : Builder Nat := do
  flushExtras
  let tree ← onStream rule
  modify fun frame => { frame with draft := frame.draft.push [tree] }
  lastIndex

def mark (field : Field) (index : Nat) : Builder Unit :=
  modify fun frame => { frame with draft := frame.draft.mark field index }

/-- Repeats a step that hands on a value, until the step answers `none`. A step that asks for
another turn has read something; one that has not is the last. -/
def iterate {σ : Type} (step : σ → Builder (Option σ)) (x : σ) : Builder Unit := fun frame =>
  match step x frame with
  | .error diagnostic after => .error diagnostic after
  | .ok none after => .ok () after
  | .ok (some y) after =>
    if after.stream.pending.length < frame.stream.pending.length then iterate step y after
    else .ok () after
termination_by frame => frame.stream.pending.length

def build (kind : NodeKind) (steps : Builder Unit) : Reader Tree := fun stream =>
  match steps ⟨stream, .empty kind⟩ with
  | .ok _ frame => .ok (frame.draft.finish frame.stream.position) frame.stream
  | .error diagnostic frame => .error diagnostic frame.stream

end Builder

end HslTree
