import SourceCoverage.Octets
import SourceCoverage.Position

namespace SourceCoverage

structure LineIndex where
  starts : List Nat
  length : Nat
deriving DecidableEq, Repr

namespace LineIndex

/-- Offsets after each newline of `text`, which itself starts at `offset`. -/
def lineStarts (offset : Nat) : Octets → List Nat
  | [] => []
  | b :: text =>
    if b == Octets.newline then (offset + 1) :: lineStarts (offset + 1) text
    else lineStarts (offset + 1) text

def ofText (text : Octets) : LineIndex := ⟨0 :: lineStarts 0 text, text.length⟩

/-- The last offset of a line: where its newline stands, or the end of the text. -/
def lineEnd (index : LineIndex) (line : Nat) : Nat :=
  match index.starts[line + 1]? with
  | some next => next - 1
  | none => index.length

/-- Offset of a position. A position may stand at the end of its line, but not beyond. -/
def offset? (index : LineIndex) (p : Position) : Option Nat :=
  if p.line = 0 ∨ p.column = 0 then none
  else
    let line := p.line.toNat - 1
    match index.starts[line]? with
    | none => none
    | some start =>
      let offset := start + (p.column.toNat - 1)
      if offset ≤ index.lineEnd line then some offset else none

end LineIndex

/-- The greatest coordinate that fits. -/
def clamp (n : Nat) : UInt32 := if n < 4294967296 then n.toUInt32 else 4294967295

/-- The row and column that `count` octets lead to. -/
def advance (row column : Nat) : (count : Nat) → Octets → Nat × Nat
  | 0, _ => (row, column)
  | _, [] => (row, column)
  | count + 1, b :: text =>
    if b == Octets.newline then advance (row + 1) 0 count text else advance row (column + 1) count text

/-- Position of an offset: one more than the newlines before it, and one more than the octets since the
last of them. -/
def positionAt (text : Octets) (offset : Nat) : Position :=
  let (row, column) := advance 0 0 offset text
  ⟨clamp (row + 1), clamp (column + 1)⟩

end SourceCoverage
