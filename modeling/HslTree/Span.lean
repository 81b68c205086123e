/-! Places in a source: byte offsets tagged with the label of the file they count in. -/

namespace HslTree

/-- A byte offset into a file. Offsets are 32-bit words. -/
structure Position where
  offset : UInt32
  file : String
deriving DecidableEq, Repr

def Position.at (file : String) (offset : Nat) : Position := ⟨offset.toUInt32, file⟩

/-- A range of bytes: `start` is its first byte and `stop` the one after its last. -/
structure Span where
  start : Position
  stop : Position
deriving DecidableEq, Repr

def Span.between (file : String) (first last : Nat) : Span :=
  ⟨.at file first, .at file last⟩

def Span.empty (position : Position) : Span := ⟨position, position⟩

def Span.length? (span : Span) : Option Nat :=
  if span.start.offset ≤ span.stop.offset then
    some (span.stop.offset.toNat - span.start.offset.toNat)
  -- It stops before it starts.
  else none

end HslTree
