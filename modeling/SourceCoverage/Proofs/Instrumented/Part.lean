import Mathlib.Data.List.Basic
import SourceCoverage.Instrumented.Insertion

namespace SourceCoverage

/-- The section that a marker encloses in an opener and a closer. -/
def Marker.bracket? (m : Marker) : Option Section :=
  match m.kind with
  | .checkpoint => m.scope?
  | .evaluation _ => m.extent?

inductive Part where
  | checkpoint (m : Marker)
  | opener (m : Marker)
  | closer (m : Marker)
deriving DecidableEq, Repr

namespace Part

def marker : Part → Marker
  | checkpoint m => m
  | opener m => m
  | closer m => m

def text (probes : Probes) : Part → Octets
  | checkpoint m => Utf8.encode (probes.checkpoint m.id)
  | opener m =>
    match m.kind with
    | .checkpoint => Utf8.encode (probes.scopeOpen m.id)
    | .evaluation _ => Utf8.encode (probes.evaluationOpen m.id)
  | closer m =>
    match m.kind with
    | .checkpoint => Utf8.encode probes.scopeClose
    | .evaluation _ => Utf8.encode probes.evaluationClose

/-- Where the part stands among the insertions at its offset. -/
def kind : Part → InsertionClass
  | checkpoint _ => .checkpointOpen
  | opener m => if m.isCheckpoint then .checkpointOpen else .evaluationOpen
  | closer _ => .close

end Part

/-- The parts that a marker gives. -/
def Marker.parts (m : Marker) : List Part :=
  match m.bracket? with
  | none => [.checkpoint m]
  | some _ => [.opener m, .closer m]

namespace Instrumenter

/-- A position of the source at which something can be inserted. -/
def Accepts (i : Instrumenter) (p : Position) : Prop :=
  ∃ offset, i.lines.offset? p = some offset ∧ Utf8.isBoundary i.source offset = true

/-- A marker that fits the source. -/
def Fits (i : Instrumenter) (m : Marker) : Prop :=
  match m.bracket? with
  | none => m.kind = .checkpoint ∧ i.Accepts m.start
  | some sect => sect.start ≤ sect.stop ∧ i.Accepts sect.start ∧ i.Accepts sect.stop

instance (i : Instrumenter) (p : Position) : Decidable (i.Accepts p) :=
  match found : i.lines.offset? p with
  | none => isFalse (by simp [Accepts, found])
  | some offset => decidable_of_iff (Utf8.isBoundary i.source offset = true) (by simp [Accepts, found])

instance (i : Instrumenter) (m : Marker) : Decidable (i.Fits m) :=
  match bracket : m.bracket? with
  | none => decidable_of_iff (m.kind = .checkpoint ∧ i.Accepts m.start) (by rw [Fits, bracket])
  | some sect =>
    decidable_of_iff (sect.start ≤ sect.stop ∧ i.Accepts sect.start ∧ i.Accepts sect.stop) (by rw [Fits, bracket])

/-- The offset of a position that the source accepts. -/
def offsetOf (i : Instrumenter) (p : Position) : Nat := (i.lines.offset? p).getD 0

def spanOf (i : Instrumenter) (m : Marker) : Span :=
  match m.bracket? with
  | none => ⟨m.id, i.offsetOf m.start, i.offsetOf m.start, m.rank⟩
  | some sect => ⟨m.id, i.offsetOf sect.start, i.offsetOf sect.stop, m.rank⟩

/-- The offset at which a part is inserted. -/
def placeOf (i : Instrumenter) : Part → Nat
  | .checkpoint m => (i.spanOf m).start
  | .opener m => (i.spanOf m).start
  | .closer m => (i.spanOf m).stop

def insertionOf (i : Instrumenter) (p : Part) : Insertion :=
  ⟨i.placeOf p, p.kind, i.spanOf p.marker, p.text i.probes⟩

/-- What a marker that fits contributes. -/
def contributionOf (i : Instrumenter) (m : Marker) : Contribution :=
  ⟨m.parts.map i.insertionOf, m.bracket?.toList.map fun _ => i.spanOf m⟩

theorem offset_eq_ok_iff {i : Instrumenter} {p : Position} {offset : Nat} :
    i.offset p = .ok offset ↔ i.Accepts p ∧ offset = i.offsetOf p := by
  unfold Instrumenter.offset Accepts offsetOf
  cases i.lines.offset? p with
  | none => simp
  | some k =>
    by_cases boundary : Utf8.isBoundary i.source k = true
    · simp only [boundary, if_true, Except.ok.injEq, Option.some.injEq, exists_eq_left', true_and,
        Option.getD_some]
      exact eq_comm
    · simp [boundary]

theorem span_eq_ok_iff {i : Instrumenter} {m : Marker} {sect : Section} {span : Span} :
    i.span m sect = .ok span ↔
      (sect.start ≤ sect.stop ∧ i.Accepts sect.start ∧ i.Accepts sect.stop) ∧
        span = ⟨m.id, i.offsetOf sect.start, i.offsetOf sect.stop, m.rank⟩ := by
  unfold Instrumenter.span Section.isWellFormed
  by_cases ordered : sect.start ≤ sect.stop
  · simp only [ordered, decide_true, if_true, bind, Except.bind]
    cases atStart : i.offset sect.start with
    | error misfit =>
      have refused : ¬ i.Accepts sect.start := by
        intro accepted
        have := offset_eq_ok_iff.mpr ⟨accepted, rfl⟩
        simp [atStart] at this
      simp [refused]
    | ok start =>
      obtain ⟨accepted, rfl⟩ := offset_eq_ok_iff.mp atStart
      cases atStop : i.offset sect.stop with
      | error misfit =>
        have refused : ¬ i.Accepts sect.stop := by
          intro accepted
          have := offset_eq_ok_iff.mpr ⟨accepted, rfl⟩
          simp [atStop] at this
        simp [refused]
      | ok stop =>
        obtain ⟨accepted', rfl⟩ := offset_eq_ok_iff.mp atStop
        simp [accepted, accepted', pure, Except.pure, eq_comm]
  · simp [ordered]

/-- The outcome of a step whose result is built from the outcome of another. -/
theorem bind_pure_eq_ok_iff {ε α β : Type} {x : Except ε α} {f : α → β} {c : β} :
    (x >>= fun a => pure (f a)) = .ok c ↔ ∃ a, x = .ok a ∧ f a = c := by
  cases x <;> simp [bind, Except.bind, pure, Except.pure]

theorem contribution_eq_ok_iff {i : Instrumenter} {m : Marker} {c : Contribution} :
    i.contribution m = .ok c ↔ i.Fits m ∧ c = i.contributionOf m := by
  obtain ⟨id, kind, location, scopeEnd⟩ := m
  cases kind with
  | checkpoint =>
    cases scopeEnd with
    | none =>
      simp only [contribution, Marker.scope?, Option.map_none, bind_pure_eq_ok_iff, offset_eq_ok_iff]
      constructor
      · rintro ⟨_, ⟨accepted, rfl⟩, rfl⟩
        exact ⟨⟨rfl, accepted⟩, rfl⟩
      · rintro ⟨⟨_, accepted⟩, rfl⟩
        exact ⟨_, ⟨accepted, rfl⟩, rfl⟩
    | some stop =>
      simp only [contribution, Marker.scope?, Option.map_some, bind_pure_eq_ok_iff, span_eq_ok_iff]
      constructor
      · rintro ⟨_, ⟨accepted, rfl⟩, rfl⟩
        exact ⟨accepted, rfl⟩
      · rintro ⟨accepted, rfl⟩
        exact ⟨_, ⟨accepted, rfl⟩, rfl⟩
  | evaluation kind =>
    cases location with
    | point position => simp [contribution, Fits, Marker.bracket?, Marker.extent?]
    | extent sect =>
      simp only [contribution, Marker.extent?, bind_pure_eq_ok_iff, span_eq_ok_iff]
      constructor
      · rintro ⟨_, ⟨accepted, rfl⟩, rfl⟩
        exact ⟨accepted, rfl⟩
      · rintro ⟨accepted, rfl⟩
        exact ⟨_, ⟨accepted, rfl⟩, rfl⟩

theorem contributions_eq_ok_iff {i : Instrumenter} {markers : List Marker} {cs : List Contribution} :
    i.contributions markers = .ok cs ↔ (∀ m ∈ markers, i.Fits m) ∧ cs = markers.map i.contributionOf := by
  induction markers generalizing cs with
  | nil => simp [contributions, eq_comm]
  | cons m markers ih =>
    unfold contributions
    cases first : i.contribution m with
    | error misfit =>
      have refused : ¬ i.Fits m := by
        intro fits
        have := contribution_eq_ok_iff.mpr ⟨fits, rfl⟩
        simp [first] at this
      simp [refused]
    | ok c =>
      obtain ⟨fits, rfl⟩ := contribution_eq_ok_iff.mp first
      cases others : i.contributions markers with
      | error fault =>
        have refused : ¬ ∀ m ∈ markers, i.Fits m := by
          intro all
          have := ih.mpr ⟨all, rfl⟩
          simp [others] at this
        simp only [Except.map, reduceCtorEq, List.forall_mem_cons, false_iff]
        exact fun accepted => refused accepted.1.2
      | ok rest =>
        obtain ⟨all, rfl⟩ := ih.mp others
        simp only [Except.map, Except.ok.injEq, List.forall_mem_cons, List.map_cons]
        exact ⟨fun same => ⟨⟨fits, all⟩, same.symm⟩, fun ⟨_, same⟩ => same.symm⟩

/-- The parts of all markers, in the order in which they stand in the text. -/
def sortedParts (i : Instrumenter) (markers : List Marker) : List Part :=
  (markers.flatMap Marker.parts).mergeSort fun p q => ((i.insertionOf p).order (i.insertionOf q)).isLE

def spans (i : Instrumenter) (markers : List Marker) : List Span :=
  markers.flatMap fun m => m.bracket?.toList.map fun _ => i.spanOf m

theorem instrument_eq_ok_iff {i : Instrumenter} {markers : List Marker} {output : Octets} :
    i.instrument markers = .ok output ↔
      (∀ m ∈ markers, i.Fits m) ∧ Span.firstCrossing? (i.spans markers) = none ∧
        output = Insertion.splice 0 i.source ((i.sortedParts markers).map i.insertionOf) := by
  unfold instrument
  cases made : i.contributions markers with
  | error fault =>
    have refused : ¬ ∀ m ∈ markers, i.Fits m := by
      intro all
      have := contributions_eq_ok_iff.mpr ⟨all, rfl⟩
      simp [made] at this
    simp [refused]
  | ok cs =>
    obtain ⟨all, rfl⟩ := contributions_eq_ok_iff.mp made
    have sameSpans : (markers.map i.contributionOf).flatMap (·.spans) = i.spans markers := by
      rw [List.flatMap_map]
      rfl
    have sameInsertions : (markers.map i.contributionOf).flatMap (·.insertions) =
        (markers.flatMap Marker.parts).map i.insertionOf := by
      rw [List.flatMap_map, List.map_flatMap]
      rfl
    have sorted : ((markers.flatMap Marker.parts).map i.insertionOf).mergeSort
        (fun a b => (a.order b).isLE) = (i.sortedParts markers).map i.insertionOf :=
      (List.map_mergeSort (f := i.insertionOf) fun _ _ _ _ => rfl).symm
    simp only [sameSpans, sameInsertions, sorted]
    cases Span.firstCrossing? (i.spans markers) with
    | some crossing => simp
    | none => simpa [eq_comm] using fun _ => all

end Instrumenter

theorem instrumentText_eq_ok_iff {probes : Probes} {preamble : String} {source : Octets} {markers : List Marker}
    {output : Octets} : instrumentText probes preamble source markers = .ok output ↔
      ∃ text, (Instrumenter.ofSource source probes).instrument markers = .ok text ∧
        output = Utf8.encode preamble ++ text := by
  unfold instrumentText
  cases (Instrumenter.ofSource source probes).instrument markers <;> simp [Except.map, eq_comm]

end SourceCoverage
