import SourceCoverage.Proofs.Instrumented.Layout
import SourceCoverage.Proofs.Probe

namespace SourceCoverage

/-- What a layout has to show to be the source with its markers put in. -/
structure Layout.Faithful (source : Octets) (markers : List Marker) (layout : Layout) : Prop where
  source_eq : layout.source = source
  /-- Each marker gives its parts, and each part stands once. -/
  parts_perm : layout.parts.Perm (markers.flatMap Marker.parts)
  parts_nodup : layout.parts.Nodup
  nested : WellNested layout.parts
  /-- Between the opener and the closer of a marker stands its section, in front of the opener all of
  the source before it. -/
  enclosed : ∀ m ∈ markers, ∀ sect, m.bracket? = some sect →
    ∃ (start stop : Nat) (before inside after : Layout),
    (LineIndex.ofText source).offset? sect.start = some start ∧
    (LineIndex.ofText source).offset? sect.stop = some stop ∧
    layout = before ++ .part (.opener m) :: (inside ++ .part (.closer m) :: after) ∧
    WellNested inside.parts ∧ before.source = source.take start ∧
    inside.source = (source.drop start).take (stop - start)
  placed : ∀ m ∈ markers, m.bracket? = none → ∃ (start : Nat) (before after : Layout),
    (LineIndex.ofText source).offset? m.start = some start ∧
    layout = before ++ .part (.checkpoint m) :: after ∧ before.source = source.take start
  /-- Where no octet of the source stands between two parts, a checkpoint is not behind the opener of
  an evaluation and not in front of a closer. -/
  ordered : ∀ (before : Layout) (p : Part) (middle : Layout) (q : Part) (after : Layout),
    layout = before ++ .part p :: (middle ++ .part q :: after) →
    middle.source = [] →
    (q.kind = .checkpointOpen → p.kind ≠ .evaluationOpen) ∧ (p.kind = .checkpointOpen → q.kind ≠ .close)

/-- Every octet of the source has as many newlines before it as in the source alone. -/
def Layout.KeepsLines (probes : Probes) (layout : Layout) : Prop :=
  ∀ (before : Layout) (b : UInt8) (after : Layout), layout = before ++ .octet b :: after →
    (before.text probes).count Octets.newline = before.source.count Octets.newline

namespace Layout

/-- Two ways to divide a layout at a part, with as many parts in front, are one. -/
theorem split_unique {a b a' b' : Layout} {p p' : Part} (same : a ++ .part p :: b = a' ++ .part p' :: b')
    (count : a.parts.length = a'.parts.length) : a = a' := by
  rcases List.append_eq_append_iff.mp same with ⟨c, rfl, rest⟩ | ⟨c, rfl, rest⟩
  · cases c with
    | nil => simp
    | cons x c =>
      obtain ⟨rfl, _⟩ := List.cons.inj rest
      simp at count
  · cases c with
    | nil => simp
    | cons x c =>
      obtain ⟨rfl, _⟩ := List.cons.inj rest
      simp at count

theorem count_newline_text {probes : Probes} {layout : Layout}
    (clean : ∀ p ∈ layout.parts, Octets.newline ∉ p.text probes) :
    (layout.text probes).count Octets.newline = layout.source.count Octets.newline := by
  induction layout with
  | nil => rfl
  | cons fragment rest ih =>
    cases fragment with
    | octet b =>
      have others := ih (by simpa using clean)
      simp [List.count_cons, others]
    | part p =>
      have others := ih (fun q member => clean q (by simp [member]))
      have none := List.count_eq_zero.mpr (clean p (by simp))
      simp [others, none]

end Layout

theorem Part.newline_notMem_text {probes : Probes} (onOneLine : probes.names.OnOneLine) (p : Part) :
    Octets.newline ∉ p.text probes := by
  have bracket : Octets.newline ≠ Octets.ascii '(' := by decide
  have checkpoint := newline_notMem_encode onOneLine.1
  have evaluation := newline_notMem_encode onOneLine.2
  have fixed (s : String) (closed : '\n' ∉ s.toList) := newline_notMem_encode closed
  cases p with
  | checkpoint m =>
    rw [text, Probes.encode_checkpoint]
    simp [checkpoint, bracket, newline_notMem_digits, fixed "); " (by decide)]
  | opener m =>
    cases kind : m.kind with
    | checkpoint =>
      simp only [text, kind, Probes.encode_scopeOpen]
      simp [checkpoint, bracket, newline_notMem_digits, fixed "u); " (by decide), fixed "\x7b " (by decide)]
    | evaluation e =>
      simp only [text, kind, Probes.encode_evaluationOpen]
      simp [evaluation, bracket, newline_notMem_digits, fixed ", (" (by decide)]
  | closer m =>
    cases kind : m.kind with
    | checkpoint =>
      simp only [text, kind]
      exact fixed " \x7d" (by decide)
    | evaluation e =>
      simp only [text, kind, Probes.evaluationClose]
      cases probes.dialect with
      | c => exact fixed ") ? 1 : 0)" (by decide)
      | cpp => exact fixed ") ? true : false)" (by decide)

namespace Instrumenter

variable {source : Octets} {probes : Probes} {markers : List Marker}

/-- Wherever the layout is divided at a part, the source in front of it goes up to the part's offset. -/
theorem source_before_part {i : Instrumenter} {before after : Layout} {p : Part}
    (divided : i.layout markers = before ++ .part p :: after) :
    before.source = i.source.take (i.placeOf p) := by
  have parts : i.sortedParts markers = before.parts ++ p :: after.parts := by
    rw [← parts_layOut i (i.sortedParts markers) 0 i.source]
    change Layout.parts (i.layout markers) = _
    rw [divided]
    simp
  have sorted : (i.sortedParts markers).Pairwise fun p q => i.placeOf p ≤ i.placeOf q := sortedParts_placed
  rw [parts] at sorted
  obtain ⟨before', divided', octets, earlier⟩ := layOut_split i.source sorted (fun _ _ => Nat.zero_le _)
  rw [← parts] at divided'
  rw [Layout.split_unique (divided.symm.trans divided') (by rw [earlier]), octets, Nat.sub_zero]

theorem placeOf_le_length (fits : ∀ m ∈ markers, (ofSource source probes).Fits m) {p : Part}
    (member : p ∈ (ofSource source probes).sortedParts markers) :
    (ofSource source probes).placeOf p ≤ source.length := by
  obtain ⟨m, atM, part⟩ := mem_sortedParts.mp member
  have fit := fits m atM
  cases bracket : m.bracket? with
  | none =>
    simp only [Marker.parts, bracket, List.mem_singleton] at part
    simp only [Fits, bracket] at fit
    simp only [part, placeOf, spanOf, bracket]
    exact LineIndex.offset?_le_length fit.2.offset?_eq
  | some sect =>
    obtain ⟨atStart, atStop⟩ := fit.offsets bracket
    simp only [Marker.parts, bracket, List.mem_cons, List.not_mem_nil, or_false] at part
    rcases part with rfl | rfl
    · exact LineIndex.offset?_le_length atStart
    · exact LineIndex.offset?_le_length atStop

/-- Two parts with no octet of the source between them are inserted at one offset, in their order. -/
theorem kind_rank_le (fits : ∀ m ∈ markers, (ofSource source probes).Fits m)
    {before middle after : Layout} {p q : Part}
    (divided : (ofSource source probes).layout markers = before ++ .part p :: (middle ++ .part q :: after))
    (adjacent : middle.source = []) : p.kind.rank ≤ q.kind.rank := by
  have parts : (ofSource source probes).sortedParts markers =
      before.parts ++ p :: (middle.parts ++ q :: after.parts) := by
    rw [← parts_layOut (ofSource source probes) ((ofSource source probes).sortedParts markers) 0 source]
    change Layout.parts ((ofSource source probes).layout markers) = _
    rw [divided]
    simp
  have first := source_before_part divided
  have regrouped : (ofSource source probes).layout markers =
      (before ++ .part p :: middle) ++ .part q :: after := by rw [divided]; simp
  have second := source_before_part regrouped
  have bound := placeOf_le_length fits (parts ▸ (by simp) : p ∈ _)
  have bound' := placeOf_le_length fits (parts ▸ (by simp) : q ∈ _)
  have place : (ofSource source probes).placeOf p = (ofSource source probes).placeOf q := by
    simp only [Layout.source_append, Layout.source_part, adjacent, List.append_nil] at second
    have lengths := congrArg List.length (first.symm.trans second)
    simp only [List.length_take, ofSource] at lengths
    simp only [ofSource] at bound bound' ⊢
    omega
  have sorted : ((ofSource source probes).sortedParts markers).Pairwise _ := sortedParts_sorted
  rw [parts] at sorted
  have before' := (List.pairwise_cons.mp (List.pairwise_append.mp sorted).2.1).1 q (by simp)
  rw [Insertion.order_isLE_iff] at before'
  simp only [insertionOf] at before'
  omega

/-- The opener and the closer of a marker, with what is before, between and behind them. -/
theorem layout_enclosed
    (noncrossing : Noncrossing ((ofSource source probes).sortedParts markers))
    {m : Marker} (atM : m ∈ markers) {sect : Section} (bracket : m.bracket? = some sect) :
    ∃ before inside after : Layout,
      (ofSource source probes).layout markers =
        before ++ .part (.opener m) :: (inside ++ .part (.closer m) :: after) ∧
      WellNested inside.parts ∧
      before.source = source.take ((ofSource source probes).spanOf m).start ∧
      inside.source = (source.drop ((ofSource source probes).spanOf m).start).take
        (((ofSource source probes).spanOf m).stop - ((ofSource source probes).spanOf m).start) := by
  have opened : Part.opener m ∈ (ofSource source probes).sortedParts markers :=
    opener_mem_sortedParts.mpr ⟨atM, sect, bracket⟩
  have closed : Part.closer m ∈ (ofSource source probes).sortedParts markers :=
    closer_mem_sortedParts.mpr ⟨atM, sect, bracket⟩
  obtain ⟨earlier, later, split⟩ := List.append_of_mem opened
  rw [split] at closed
  have closedLater : Part.closer m ∈ later := by
    rcases List.mem_append.mp closed with early | late
    · exfalso
      refine noncrossing.ordered m ?_
      rw [split]
      exact (List.singleton_sublist.mpr early).append ((List.nil_sublist _).cons_cons _)
    · exact (List.mem_cons.mp late).resolve_left (by simp)
  obtain ⟨within, behind, split'⟩ := List.append_of_mem closedLater
  rw [split'] at split
  rw [split] at noncrossing
  have sorted : ((ofSource source probes).sortedParts markers).Pairwise _ := sortedParts_placed
  rw [split] at sorted
  obtain ⟨before, layout, octets, _⟩ := layOut_split source sorted (fun _ _ => Nat.zero_le _)
  obtain ⟨_, rest, _⟩ := List.pairwise_append.mp sorted
  obtain ⟨after, restSorted⟩ := List.pairwise_cons.mp rest
  obtain ⟨inside, layout', octets', parts'⟩ := layOut_split (source.drop (_ - 0)) restSorted after
  rw [layout'] at layout
  unfold Instrumenter.layout
  rw [split]
  exact ⟨before, inside, _, layout, parts' ▸ noncrossing.within.wellNested, octets, octets'⟩

theorem layout_placed {m : Marker} (atM : m ∈ markers) (bracket : m.bracket? = none) :
    ∃ before after : Layout, (ofSource source probes).layout markers = before ++ .part (.checkpoint m) :: after ∧
      before.source = source.take ((ofSource source probes).offsetOf m.start) := by
  have member : Part.checkpoint m ∈ (ofSource source probes).sortedParts markers :=
    mem_sortedParts.mpr ⟨m, atM, Marker.mem_parts_checkpoint.mpr ⟨rfl, bracket⟩⟩
  obtain ⟨earlier, later, split⟩ := List.append_of_mem member
  have sorted : ((ofSource source probes).sortedParts markers).Pairwise _ := sortedParts_placed
  rw [split] at sorted
  obtain ⟨before, layout, octets, _⟩ := layOut_split source sorted (fun _ _ => Nat.zero_le _)
  have place : (ofSource source probes).placeOf (.checkpoint m) = (ofSource source probes).offsetOf m.start := by
    simp [placeOf, spanOf, bracket]
  rw [place] at octets
  unfold Instrumenter.layout
  rw [split]
  exact ⟨before, _, layout, octets⟩

theorem layout_faithful (fits : ∀ m ∈ markers, (ofSource source probes).Fits m)
    (uncrossed : Span.firstCrossing? ((ofSource source probes).spans markers) = none)
    (unambiguous : Unambiguous markers) :
    Layout.Faithful source markers ((ofSource source probes).layout markers) where
  source_eq := source_layOut _ _ _ _
  parts_perm := by
    rw [layout, parts_layOut]
    exact sortedParts_perm
  parts_nodup := by
    rw [layout, parts_layOut]
    exact sortedParts_nodup unambiguous
  nested := by
    rw [layout, parts_layOut]
    exact (sortedParts_noncrossing fits uncrossed unambiguous).wellNested
  enclosed m atM sect bracket := by
    obtain ⟨before, inside, after, divided, nested, octets, octets'⟩ :=
      layout_enclosed (sortedParts_noncrossing fits uncrossed unambiguous) atM bracket
    obtain ⟨atStart, atStop⟩ := (fits m atM).offsets bracket
    exact ⟨_, _, before, inside, after, atStart, atStop, divided, nested, octets, octets'⟩
  placed m atM bracket := by
    obtain ⟨before, after, divided, octets⟩ := layout_placed atM bracket
    have fit := fits m atM
    simp only [Fits, bracket] at fit
    exact ⟨_, before, after, fit.2.offset?_eq, divided, octets⟩
  ordered before p middle q after divided adjacent := by
    have rank := kind_rank_le fits divided adjacent
    constructor
    · intro checkpoint evaluation
      rw [checkpoint, evaluation] at rank
      simp [InsertionClass.rank] at rank
    · intro checkpoint closer
      rw [checkpoint, closer] at rank
      simp [InsertionClass.rank] at rank

end Instrumenter

/-- Instrumented text is the preamble and a faithful layout of the source; with probe names on one line
every octet of the source keeps its line. -/
theorem instrumentText_faithful (probes : Probes) (preamble : String) (source : Octets)
    (markers : List Marker) (output : Octets)
    (accepted : instrumentText probes preamble source markers = .ok output)
    (unambiguous : Unambiguous markers) :
    ∃ layout : Layout, output = Utf8.encode preamble ++ layout.text probes ∧
      layout.Faithful source markers ∧ (probes.names.OnOneLine → layout.KeepsLines probes) := by
  unfold instrumentText at accepted
  cases made : (Instrumenter.ofSource source probes).instrument markers with
  | error fault => simp [made, Except.map] at accepted
  | ok text =>
    simp only [made, Except.map, Except.ok.injEq] at accepted
    obtain ⟨fits, uncrossed, rfl⟩ := Instrumenter.instrument_eq_ok_iff.mp made
    refine ⟨(Instrumenter.ofSource source probes).layout markers, ?_,
      Instrumenter.layout_faithful fits uncrossed unambiguous, ?_⟩
    · rw [← accepted]
      congr 1
      exact (Instrumenter.text_layOut (Instrumenter.ofSource source probes) _ 0 source).symm
    · intro onOneLine before b after _
      exact Layout.count_newline_text fun p _ => p.newline_notMem_text onOneLine

/-- A checkpoint, a decision and a condition that all start at one offset. -/
theorem instrumentText_faithful_shared_start :
    ∃ layout : Layout,
      Utf8.encode
        "__coveron_checkpoint(1); __coveron_evaluation(2, (__coveron_evaluation(3, (a) ? 1 : 0) && b) ? 1 : 0);" =
        Utf8.encode "" ++ layout.text {} ∧
      layout.Faithful (Utf8.encode "a && b;")
        [.checkpoint 1 ⟨1, 1⟩, .evaluation 2 ⟨⟨1, 1⟩, ⟨1, 7⟩⟩ .decision,
          .evaluation 3 ⟨⟨1, 1⟩, ⟨1, 2⟩⟩ .condition] ∧
      (ProbeNames.OnOneLine {} → layout.KeepsLines {}) := by
  let checkpoint : Marker := .checkpoint 1 ⟨1, 1⟩
  let decision : Marker := .evaluation 2 ⟨⟨1, 1⟩, ⟨1, 7⟩⟩ .decision
  let condition : Marker := .evaluation 3 ⟨⟨1, 1⟩, ⟨1, 2⟩⟩ .condition
  have accepted : instrumentText {} "" (Utf8.encode "a && b;") [checkpoint, decision, condition] = _ :=
    instrumentText_of_sorted "" [.checkpoint checkpoint, .opener decision, .opener condition, .closer condition,
      .closer decision] (by decide) (by decide +kernel) (by decide +kernel) (by decide +kernel) (by decide +kernel)
  exact instrumentText_faithful {} "" (Utf8.encode "a && b;") _ _ (accepted.trans (by decide +kernel))
    { nonempty := by simp [Marker.bracket?, Marker.checkpoint, Marker.evaluation, Marker.scope?, Marker.extent?]
      evaluations := by simp [Marker.checkpoint, Marker.evaluation]
      checkpoints := by simp [Marker.checkpoint, Marker.evaluation]
      scopes := by simp [Marker.checkpoint, Marker.evaluation, Marker.scope?] }

end SourceCoverage
