import SourceCoverage.Marker

namespace SourceCoverage

/-- What a marker encloses, from offset `start` to before offset `stop`. -/
structure Span where
  id : MarkerId
  start : Nat
  stop : Nat
  rank : Nat
deriving DecidableEq, Repr

namespace Span

/-- By start, then the longer one, then the outer rank. -/
def order (a b : Span) : Ordering :=
  (compare a.start b.start).then <| (compare b.stop a.stop).then <| compare a.rank b.rank

/-- Two spans that overlap without one lying in the other. -/
structure Crossing where
  outer : MarkerId
  inner : MarkerId
deriving DecidableEq, Repr

/-- Walks over spans in order. The stack holds the spans that may still enclose the next one, the
innermost on top. -/
def crossingAmong (stack : List Span) : List Span → Option Crossing
  | [] => none
  | span :: rest =>
    match stack.dropWhile (·.stop ≤ span.start) with
    | [] => crossingAmong [span] rest
    | top :: below =>
      if top.stop < span.stop then some ⟨top.id, span.id⟩ else crossingAmong (span :: top :: below) rest

def firstCrossing? (spans : List Span) : Option Crossing :=
  crossingAmong [] (spans.mergeSort fun a b => (a.order b).isLE)

/-- One ends before the other starts, or one lies in the other. -/
def compatible (a b : Span) : Prop :=
  a.stop ≤ b.start ∨ b.stop ≤ a.start ∨
    (a.start ≤ b.start ∧ b.stop ≤ a.stop) ∨ (b.start ≤ a.start ∧ a.stop ≤ b.stop)

instance (a b : Span) : Decidable (compatible a b) :=
  inferInstanceAs (Decidable (_ ∨ _ ∨ (_ ∧ _) ∨ (_ ∧ _)))

end Span

end SourceCoverage
