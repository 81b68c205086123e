import HslTree.Token.Basic

/-! Points of the grammar. Rules never contain themselves, so how a token list may go on depends on
finitely many points, and a list of tokens walks from one to the next. -/

namespace HslTree

/-- Where an expression stands: behind the assignment of a declaration, or in a call. -/
inductive Slot
  | value
  | argument
deriving DecidableEq

/-- What was read last decides how a token list may go on. -/
inductive Point
  | top
  | names
  | named
  | externCount
  | functionName
  | functionMiddle
  | header
  | functionCount
  | body
  | declaredName
  | assign
  | callee
  | operand (slot : Slot)
  | digits (slot : Slot)
  | string (slot : Slot)
  | closed
deriving DecidableEq

def Slot.after : Slot → Point
  | value => .body
  | argument => .operand .argument

namespace Point

def isTight : Point → Bool
  | digits _ | string _ => true
  | _ => false

/-- The point behind a token of some kind, if one is allowed. Nothing behind an end mark is looked
at. -/
def next? : Point → Kind → Option Point
  | closed, _ => some closed
  | q, .blank | q, .comment => if q.isTight then none else some q
  | top, .endOfInput => some closed
  | top, .externOpen => some names
  | top, .functionOpen => some functionName
  | names, .identifier | named, .identifier => some named
  | names, .externClose | named, .externClose => some top
  | named, .variadic => some externCount
  | externCount, .number => some names
  | functionName, .identifier => some functionMiddle
  | functionMiddle, .functionMiddle => some header
  | header, .variadic => some functionCount
  | functionCount, .number => some body
  | header, .functionClose | body, .functionClose => some top
  | header, .callOpen | body, .callOpen => some callee
  | header, .declareResistance | header, .declareForce | header, .declarePilot
  | body, .declareResistance | body, .declareForce | body, .declarePilot => some declaredName
  | declaredName, .identifier => some assign
  | assign, .assignFather | assign, .assignJudge => some (operand .value)
  | callee, .identifier => some (operand .argument)
  | operand .argument, .callClose => some body
  | operand slot, .identifier | operand slot, .number | operand slot, .char
  | operand slot, .pointOfView | operand slot, .impossible => some slot.after
  | operand slot, .minus => some (digits slot)
  | operand slot, .quote => some (string slot)
  | digits slot, .number => some slot.after
  | string slot, .content | string slot, .escape => some (string slot)
  | string slot, .quote => some slot.after
  | _, _ => none

def expected (q : Point) : List Kind :=
  Kind.all.filter fun k => !k.isExtra && (q.next? k).isSome

def walk : Point → List Token → Option Point
  | q, [] => some q
  | q, token :: rest => (q.next? token.kind).bind (·.walk rest)

@[simp]
theorem walk_nil (q : Point) : q.walk [] = some q := rfl

theorem walk_append (q : Point) (ts us : List Token) :
    q.walk (ts ++ us) = (q.walk ts).bind (·.walk us) := by
  induction ts generalizing q with
  | nil => rfl
  | cons t ts ih =>
    simp only [List.cons_append, walk]
    cases q.next? t.kind with
    | none => rfl
    | some p => exact ih p

theorem walk_append_of {q p : Point} {ts : List Token} (h : q.walk ts = some p)
    (us : List Token) : q.walk (ts ++ us) = p.walk us := by
  rw [walk_append, h]
  rfl

theorem walk_singleton (q : Point) (token : Token) : q.walk [token] = q.next? token.kind := by
  cases h : q.next? token.kind <;> simp [walk, h]

theorem next?_extra {q : Point} (hq : q.isTight = false) {k : Kind} (hk : k.isExtra = true) :
    q.next? k = some q := by
  cases k <;> simp [Kind.isExtra] at hk <;> cases q <;> simp_all [next?, isTight]

theorem next?_extra_tight {q : Point} (hq : q.isTight = true) {k : Kind}
    (hk : k.isExtra = true) : q.next? k = none := by
  cases k <;> simp [Kind.isExtra] at hk <;> cases q <;> simp_all [next?, isTight]

theorem walk_extras {q : Point} (hq : q.isTight = false) {ts : List Token}
    (hts : ∀ t ∈ ts, t.isExtra = true) : q.walk ts = some q := by
  induction ts with
  | nil => rfl
  | cons t ts ih =>
    rw [walk, next?_extra hq (hts t (by simp))]
    exact ih fun u hu => hts u (by simp [hu])

@[simp]
theorem walk_closed (ts : List Token) : closed.walk ts = some closed := by
  induction ts with
  | nil => rfl
  | cons t ts ih => simpa [walk, next?] using ih

theorem next?_endOfInput {q p : Point} (h : q.next? .endOfInput = some p) :
    q = top ∧ p = closed ∨ q = closed ∧ p = closed := by
  cases q <;> simp_all [next?]

theorem mem_expected {q : Point} {k : Kind} :
    k ∈ q.expected ↔ k.isExtra = false ∧ (q.next? k).isSome := by
  simp [expected, Kind.mem_all]

theorem next?_of_not_expected {q : Point} {expected : List Kind} {k : Kind}
    (hexpected : Kind.sorted expected = q.expected) (hextra : k.isExtra = false)
    (hk : k ∉ expected) : q.next? k = none := by
  have hnot : k ∉ q.expected := by
    rw [← hexpected]
    simp [Kind.sorted, hk]
  simpa [mem_expected, hextra] using hnot

def completion : Point → List Kind
  | top | closed => []
  | names | named => [.externClose]
  | externCount => [.number, .externClose]
  | functionName => [.identifier, .functionMiddle, .functionClose]
  | functionMiddle => [.functionMiddle, .functionClose]
  | header | body => [.functionClose]
  | functionCount => [.number, .functionClose]
  | declaredName => [.identifier, .assignFather, .identifier, .functionClose]
  | assign => [.assignFather, .identifier, .functionClose]
  | callee => [.identifier, .callClose, .functionClose]
  | operand .value => [.identifier, .functionClose]
  | operand .argument => [.callClose, .functionClose]
  | digits .value => [.number, .functionClose]
  | digits .argument => [.number, .callClose, .functionClose]
  | string .value => [.quote, .functionClose]
  | string .argument => [.quote, .callClose, .functionClose]

end Point

end HslTree
