namespace SourceCoverage

structure Position where
  line : UInt32
  column : UInt32
deriving DecidableEq, Repr

namespace Position

instance : LT Position where
  lt p q := p.line < q.line ∨ p.line = q.line ∧ p.column < q.column

instance : LE Position where
  le p q := p.line < q.line ∨ p.line = q.line ∧ p.column ≤ q.column

instance (p q : Position) : Decidable (p < q) :=
  inferInstanceAs (Decidable (p.line < q.line ∨ p.line = q.line ∧ p.column < q.column))

instance (p q : Position) : Decidable (p ≤ q) :=
  inferInstanceAs (Decidable (p.line < q.line ∨ p.line = q.line ∧ p.column ≤ q.column))

/-- Reading order: by line, then by column. -/
instance : Ord Position where
  compare p q := (compare p.line q.line).then (compare p.column q.column)

def text (p : Position) : String := s!"{p.line}:{p.column}"

end Position

structure Section where
  start : Position
  stop : Position
deriving DecidableEq, Repr

namespace Section

/-- By start, then by stop. -/
instance : Ord Section where
  compare s t := (compare s.start t.start).then (compare s.stop t.stop)

def isWellFormed (s : Section) : Bool := decide (s.start ≤ s.stop)

/-- `t` lies in `s`; equal sections contain each other. -/
def contains (s t : Section) : Bool := decide (s.start ≤ t.start) && decide (t.stop ≤ s.stop)

/-- The two sections share an octet. -/
def intersects (s t : Section) : Bool := decide (s.start < t.stop) && decide (t.start < s.stop)

def text (s : Section) : String := s!"{s.start.text}-{s.stop.text}"

end Section

end SourceCoverage
