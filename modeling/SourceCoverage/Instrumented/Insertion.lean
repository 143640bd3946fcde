import SourceCoverage.LineIndex
import SourceCoverage.Probe
import SourceCoverage.Instrumented.Laminar

namespace SourceCoverage

/-- Why a marker does not fit the source. -/
inductive Misfit where
  | outside (position : Position)
  | insideCharacter (position : Position)
  | malformed (sect : Section)
  | noSection
  | crosses (other : MarkerId)
deriving DecidableEq, Repr

def Misfit.message : Misfit → String
  | outside position => s!"position {position.text} is outside the source"
  | insideCharacter position => s!"position {position.text} is inside a UTF-8 character"
  | malformed sect => s!"malformed section {sect.text}"
  | noSection => "evaluation marker without a section"
  | crosses other => s!"section crosses marker {other}"

/-- The order in which insertions stand at one offset. -/
inductive InsertionClass where
  | close
  | checkpointOpen
  | evaluationOpen
deriving DecidableEq, Repr

def InsertionClass.rank : InsertionClass → Nat
  | close => 0
  | checkpointOpen => 1
  | evaluationOpen => 2

structure Insertion where
  offset : Nat
  kind : InsertionClass
  span : Span
  text : Octets
deriving DecidableEq, Repr

namespace Insertion

/-- Among insertions of one class at one offset: spans that close together close from the inside, and
spans that open together open from the outside. -/
def compareNesting (kind : InsertionClass) (a b : Span) : Ordering :=
  match kind with
  | .close => (compare b.start a.start).then (compare b.rank a.rank)
  | .checkpointOpen => .eq
  | .evaluationOpen => (compare b.stop a.stop).then (compare a.rank b.rank)

def order (a b : Insertion) : Ordering :=
  (compare a.offset b.offset).then <|
  (compare a.kind.rank b.kind.rank).then <|
  (compareNesting a.kind a.span b.span).then <|
  compare a.span.id b.span.id

/-- The source with every insertion at its offset. The insertions are in order, and `source` starts at
offset `start`. -/
def splice (start : Nat) (source : Octets) : List Insertion → Octets
  | [] => source
  | i :: rest =>
    source.take (i.offset - start) ++ i.text ++ splice i.offset (source.drop (i.offset - start)) rest

end Insertion

/-- A source and the probes to put into it. -/
structure Instrumenter where
  source : Octets
  lines : LineIndex
  probes : Probes

namespace Instrumenter

def ofSource (source : Octets) (probes : Probes) : Instrumenter := ⟨source, LineIndex.ofText source, probes⟩

def offset (i : Instrumenter) (position : Position) : Except Misfit Nat :=
  match i.lines.offset? position with
  | none => .error (.outside position)
  | some offset => if Utf8.isBoundary i.source offset then .ok offset else .error (.insideCharacter position)

def span (i : Instrumenter) (m : Marker) (sect : Section) : Except Misfit Span :=
  if sect.isWellFormed then do
    let start ← i.offset sect.start
    let stop ← i.offset sect.stop
    return ⟨m.id, start, stop, m.rank⟩
  else .error (.malformed sect)

/-- What one marker inserts, and the span that has to nest with the others. -/
structure Contribution where
  insertions : List Insertion
  spans : List Span

/-- An opener and a closer around a span. -/
def enclose (span : Span) (kind : InsertionClass) (opener closer : String) : Contribution where
  insertions := [⟨span.start, kind, span, Utf8.encode opener⟩, ⟨span.stop, .close, span, Utf8.encode closer⟩]
  spans := [span]

def contribution (i : Instrumenter) (m : Marker) : Except Misfit Contribution :=
  match m.kind, m.extent?, m.scope? with
  | .checkpoint, _, none => do
    let offset ← i.offset m.start
    return ⟨[⟨offset, .checkpointOpen, ⟨m.id, offset, offset, 0⟩, Utf8.encode (i.probes.checkpoint m.id)⟩], []⟩
  | .checkpoint, _, some scope => do
    let span ← i.span m scope
    return enclose span .checkpointOpen (i.probes.scopeOpen m.id) i.probes.scopeClose
  | .evaluation _, some sect, _ => do
    let span ← i.span m sect
    return enclose span .evaluationOpen (i.probes.evaluationOpen m.id) i.probes.evaluationClose
  | .evaluation _, none, _ => .error .noSection

/-- The contributions of all markers; a marker that does not fit is named. -/
def contributions (i : Instrumenter) : List Marker → Except (MarkerId × Misfit) (List Contribution)
  | [] => .ok []
  | m :: markers =>
    match i.contribution m with
    | .error misfit => .error (m.id, misfit)
    | .ok first => (i.contributions markers).map (first :: ·)

/-- Puts the probes of all markers into the source. -/
def instrument (i : Instrumenter) (markers : List Marker) : Except (MarkerId × Misfit) Octets :=
  match i.contributions markers with
  | .error fault => .error fault
  | .ok contributions =>
    match Span.firstCrossing? (contributions.flatMap (·.spans)) with
    | some crossing => .error (crossing.inner, .crosses crossing.outer)
    | none =>
      let insertions := contributions.flatMap (·.insertions)
      .ok (Insertion.splice 0 i.source (insertions.mergeSort fun a b => (a.order b).isLE))

end Instrumenter

/-- The preamble and, after it, the source with its probes. -/
def instrumentText (probes : Probes) (preamble : String) (source : Octets) (markers : List Marker) :
    Except (MarkerId × Misfit) Octets :=
  ((Instrumenter.ofSource source probes).instrument markers).map (Utf8.encode preamble ++ ·)

end SourceCoverage
