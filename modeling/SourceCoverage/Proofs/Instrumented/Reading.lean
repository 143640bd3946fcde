import SourceCoverage.Proofs.Finder.Proper
import SourceCoverage.Proofs.Instrumented.Faithful
import SourceCoverage.Proofs.Ledger
import SourceCoverage.Proofs.Marker

namespace SourceCoverage

/-- The marker that a part opens. -/
def Part.opened? : Part → Option Marker
  | checkpoint m => some m
  | opener m => some m
  | closer _ => none

theorem Part.eq_of_opened? {p : Part} {m n : Marker} (opens : p.opened? = some m) (part : p ∈ n.parts) : n = m := by
  have same := Marker.marker_of_mem_parts part
  cases p <;> cases opens <;> exact same.symm

theorem Marker.opened?_parts (m : Marker) : m.parts.filterMap Part.opened? = [m] := by
  unfold parts
  split <;> rfl

theorem Marker.opened?_flatMap_parts (markers : List Marker) :
    (markers.flatMap Marker.parts).filterMap Part.opened? = markers := by
  simp [List.filterMap_flatMap, opened?_parts]

theorem Marker.rank_eq_zero_iff (m : Marker) : m.rank = 0 ↔ m.isCheckpoint = true := by
  unfold rank isCheckpoint
  split <;> simp_all

theorem Marker.Regular.stopNat_eq_zero {m : Marker} (regular : m.Regular) (checkpoint : m.isCheckpoint = true) :
    m.stopNat = 0 := by
  cases regular with
  | checkpoint id position scopeEnd => rfl
  | evaluation id sect kind => cases checkpoint

namespace Instrumenter

variable {source : Octets} {probes : Probes} {markers : List Marker} {m n : Marker} {p q : Part}

theorem Fits.offset_start (fits : (ofSource source probes).Fits m) :
    (LineIndex.ofText source).offset? m.start = some ((ofSource source probes).spanOf m).start := by
  cases bracket : m.bracket? with
  | none =>
    simp only [Fits, bracket] at fits
    simp only [spanOf, bracket]
    exact fits.2.offset?_eq
  | some sect =>
    rw [← Marker.bracket?_start bracket]
    exact (fits.offsets bracket).1

/-- What opens a marker is inserted where the marker starts, checkpoints before evaluations. -/
theorem insertionOf_opening (fits : (ofSource source probes).Fits m) (opens : p.opened? = some m)
    (part : p ∈ m.parts) :
    ((ofSource source probes).insertionOf p).offset = ((ofSource source probes).spanOf m).start ∧
      ((ofSource source probes).insertionOf p).kind = (if m.isCheckpoint then .checkpointOpen else .evaluationOpen) ∧
      ((ofSource source probes).insertionOf p).span = (ofSource source probes).spanOf m := by
  cases p with
  | checkpoint m' =>
    cases opens
    have bracket := (Marker.mem_parts_checkpoint.mp part).2
    simp only [Fits, bracket] at fits
    simp [insertionOf, placeOf, Part.kind, Part.marker, Marker.isCheckpoint, fits.1]
  | opener m' =>
    cases opens
    exact ⟨rfl, rfl, rfl⟩
  | closer m' => cases opens

/-- Where evaluations stop is told by offsets as well as by positions. -/
theorem stop_lt_iff (regular : m.Regular) (regular' : n.Regular) (fits : (ofSource source probes).Fits m)
    (fits' : (ofSource source probes).Fits n) (evaluation : m.isCheckpoint = false)
    (evaluation' : n.isCheckpoint = false) :
    ((ofSource source probes).spanOf m).stop < ((ofSource source probes).spanOf n).stop ↔ m.stopNat < n.stopNat := by
  cases regular with
  | checkpoint id position scopeEnd => cases evaluation
  | evaluation id sect kind =>
    cases regular' with
    | checkpoint id' position' scopeEnd' => cases evaluation'
    | evaluation id' sect' kind' =>
      have bracket : (Marker.evaluation id sect kind).bracket? = some sect := rfl
      have bracket' : (Marker.evaluation id' sect' kind').bracket? = some sect' := rfl
      exact LineIndex.offset?_lt_iff (fits.offsets bracket).2 (fits'.offsets bracket').2

/-- Insertions that open markers are in the order of the markers. -/
theorem order_of_insertions (regular : m.Regular) (regular' : n.Regular) (fits : (ofSource source probes).Fits m)
    (fits' : (ofSource source probes).Fits n) (opens : p.opened? = some m) (part : p ∈ m.parts)
    (opens' : q.opened? = some n) (part' : q ∈ n.parts)
    (before : (((ofSource source probes).insertionOf p).order ((ofSource source probes).insertionOf q)).isLE) :
    (m.order n).isLE := by
  obtain ⟨offset, kind, span⟩ := insertionOf_opening fits opens part
  obtain ⟨offset', kind', span'⟩ := insertionOf_opening fits' opens' part'
  have starts := LineIndex.offset?_lt_iff fits.offset_start fits'.offset_start
  have starts' := LineIndex.offset?_lt_iff fits'.offset_start fits.offset_start
  rw [Insertion.order_isLE_iff, offset, offset', kind, kind', span, span'] at before
  rw [regular.order_isLE_iff regular']
  have tier := m.rank_eq_zero_iff
  have tier' := n.rank_eq_zero_iff
  cases checks : m.isCheckpoint with
  | true =>
    have stop := regular.stopNat_eq_zero checks
    cases checks' : n.isCheckpoint with
    | true =>
      have stop' := regular'.stopNat_eq_zero checks'
      simp only [checks, checks', iff_true, if_true, spanOf_id, InsertionClass.rank] at before tier tier'
      omega
    | false =>
      simp only [checks, checks', iff_true, Bool.false_eq_true, iff_false, if_true, if_false, InsertionClass.rank]
        at before tier tier'
      omega
  | false =>
    cases checks' : n.isCheckpoint with
    | true =>
      simp only [checks, checks', iff_true, Bool.false_eq_true, iff_false, if_true, if_false, InsertionClass.rank]
        at before tier tier'
      omega
    | false =>
      have stops := stop_lt_iff regular regular' fits fits' checks checks'
      have stops' := stop_lt_iff regular' regular fits' fits checks' checks
      simp only [checks, checks', Bool.false_eq_true, iff_false, if_false, spanOf_id, spanOf_rank,
        InsertionClass.rank]
        at before tier tier'
      omega

/-- The parts of markers in document order open them in this order. -/
theorem opened?_sortedParts (regular : ∀ m ∈ markers, m.Regular) (nodup : (markers.map Marker.id).Nodup)
    (fits : ∀ m ∈ markers, (ofSource source probes).Fits m) :
    ((ofSource source probes).sortedParts markers).filterMap Part.opened? =
      markers.mergeSort fun m n => (m.order n).isLE := by
  refine Marker.eq_mergeSort_order regular nodup ?_ ?_
  · have same : (((ofSource source probes).sortedParts markers).filterMap Part.opened?).Perm
        ((markers.flatMap Marker.parts).filterMap Part.opened?) := sortedParts_perm.filterMap Part.opened?
    rwa [Marker.opened?_flatMap_parts] at same
  · refine List.pairwise_filterMap.mpr (sortedParts_sorted.imp_of_mem ?_)
    intro p q atP atQ before m opens n opens'
    obtain ⟨m', atM, part⟩ := mem_sortedParts.mp atP
    obtain ⟨n', atN, part'⟩ := mem_sortedParts.mp atQ
    obtain rfl := Part.eq_of_opened? opens part
    obtain rfl := Part.eq_of_opened? opens' part'
    exact order_of_insertions (regular _ atM) (regular _ atN) (fits _ atM) (fits _ atN) opens part opens' part' before

end Instrumenter

/-- What encloses another evaluation comes before it. -/
theorem Marker.Regular.order_eq_lt_of_contains {m n : Marker} {s t : Section} (regular : m.Regular)
    (regular' : n.Regular) (extent : m.extent? = some s) (extent' : n.extent? = some t)
    (contains : s.contains t = true) (different : s ≠ t) :
    m.order n = .lt := by
  rw [order_eq_lt_iff, regular'.order_isLE_iff regular]
  rw [Section.contains_iff] at contains
  rw [ne_eq, Section.eq_iff_toNat] at different
  cases regular with
  | checkpoint id position scopeEnd => cases extent
  | evaluation id sect kind =>
    cases regular' with
    | checkpoint id' position' scopeEnd' => cases extent'
    | evaluation id' sect' kind' =>
      cases extent
      cases extent'
      have start : (Marker.evaluation id s kind).start = s.start := rfl
      have start' : (Marker.evaluation id' t kind').start = t.start := rfl
      have stop : (Marker.evaluation id s kind).stopNat = s.stop.toNat := rfl
      have stop' : (Marker.evaluation id' t kind').stopNat = t.stop.toNat := rfl
      have rank : 0 < (Marker.evaluation id s kind).rank := by cases kind <;> exact Nat.succ_pos _
      have rank' : 0 < (Marker.evaluation id' t kind').rank := by cases kind' <;> exact Nat.succ_pos _
      rw [start, start', stop, stop']
      omega

/-- A text that is instrumented with markers in document order, as a layout in which they are opened in this order. -/
theorem instrumentText_reading {probes : Probes} {preamble : String} {source : Octets} {markers : List Marker}
    {output : Octets} (regular : ∀ m ∈ markers, m.Regular) (nodup : (markers.map Marker.id).Nodup)
    (ordered : markers.Pairwise fun m n => (m.order n).isLE)
    (accepted : instrumentText probes preamble source markers = .ok output) :
    ∃ layout : Layout, output = Utf8.encode preamble ++ layout.text probes ∧ layout.source = source ∧
      layout.parts.Perm (markers.flatMap Marker.parts) ∧ layout.parts.filterMap Part.opened? = markers ∧
      ∀ (before : Layout) p after m, layout = before ++ .part p :: after → p.opened? = some m →
        ∃ start, (LineIndex.ofText source).offset? m.start = some start ∧ before.source = source.take start := by
  obtain ⟨text, made, rfl⟩ := instrumentText_eq_ok_iff.mp accepted
  obtain ⟨fits, -, rfl⟩ := Instrumenter.instrument_eq_ok_iff.mp made
  have parts : ((Instrumenter.ofSource source probes).layout markers).parts =
      (Instrumenter.ofSource source probes).sortedParts markers := Instrumenter.parts_layOut _ _ _ _
  refine ⟨(Instrumenter.ofSource source probes).layout markers, ?_, ?_, ?_, ?_, ?_⟩
  · exact congrArg _ (Instrumenter.text_layOut (Instrumenter.ofSource source probes) _ 0 source).symm
  · exact Instrumenter.source_layOut _ _ _ _
  · rw [parts]
    exact Instrumenter.sortedParts_perm
  · rw [parts, Instrumenter.opened?_sortedParts regular nodup fits]
    exact List.mergeSort_of_pairwise ordered
  · intro before p after m divided opens
    have atP : p ∈ (Instrumenter.ofSource source probes).sortedParts markers := by
      rw [← parts, divided]
      simp
    obtain ⟨m', atM, part⟩ := Instrumenter.mem_sortedParts.mp atP
    obtain rfl := Part.eq_of_opened? opens part
    refine ⟨_, (fits m' atM).offset_start, ?_⟩
    rw [Instrumenter.source_before_part divided, ← (Instrumenter.insertionOf_opening (fits m' atM) opens part).1]
    rfl

namespace Ledger

/-- The markers of every run of a ledger have a strict total order, and the document has them in it. What encloses
another evaluation comes first; and in an instrumented text the markers are opened in the order of the document, each
where it starts. -/
theorem finalize_reading_order (hash : String) (entries : List Entry)
    (few : ((({ sourceHash := hash } : Ledger).makeAll entries).1.filterMap Answer.added?).length < 2 ^ 32) :
    let ledger := (({ sourceHash := hash } : Ledger).makeAll entries).2
    let document := ledger.finalize
    (IsStrictTotalOrder { m // m ∈ ledger.markers } fun m n => m.val.order n.val = .lt) ∧
      (document.markers.Perm ledger.markers ∧ (document.markers.Pairwise fun m n => m.order n = .lt) ∧
        ∀ markers : List Marker, markers.Perm ledger.markers → (markers.Pairwise fun m n => m.order n = .lt) →
          markers = document.markers) ∧
      (∀ (i j : Nat) m n s t, document.markers[i]? = some m → document.markers[j]? = some n →
        m.extent? = some s → n.extent? = some t → s.contains t = true → s ≠ t → i < j) ∧
      ∀ probes preamble source output, instrumentText probes preamble source document.markers = .ok output →
        ∃ layout : Layout, output = Utf8.encode preamble ++ layout.text probes ∧ layout.source = source ∧
          layout.parts.Perm (document.markers.flatMap Marker.parts) ∧
          layout.parts.filterMap Part.opened? = document.markers ∧
          ∀ (before : Layout) p after m, layout = before ++ .part p :: after → p.opened? = some m →
            ∃ start, (LineIndex.ofText source).offset? m.start = some start ∧ before.source = source.take start := by
  intro ledger document
  have keeps := keeps_makeAll hash entries
  have regular : ∀ m ∈ ledger.markers, m.Regular := keeps.agrees.regular
  have nodup : (ledger.markers.map Marker.id).Nodup := keeps.nodup_ids few
  have sorted : document.markers.Perm ledger.markers := List.mergeSort_perm _ _
  have regular' : ∀ m ∈ document.markers, m.Regular := fun m member => regular m (sorted.mem_iff.mp member)
  have ordered : document.markers.Pairwise fun m n => (m.order n).isLE := Marker.pairwise_mergeSort_order regular
  have strict : document.markers.Pairwise fun m n => m.order n = .lt := Marker.pairwise_mergeSort_lt regular nodup
  refine ⟨Marker.isStrictTotalOrder_order regular nodup, ⟨sorted, strict, ?_⟩, ?_, ?_⟩
  · intro markers same increasing
    refine Marker.eq_mergeSort_order regular nodup same (increasing.imp fun {m n} before => ?_)
    rw [before]
    rfl
  · intro i j m n s t atM atN extent extent' contains different
    have before := (regular' m (List.mem_of_getElem? atM)).order_eq_lt_of_contains
      (regular' n (List.mem_of_getElem? atN)) extent extent' contains different
    rcases Nat.lt_trichotomy i j with earlier | rfl | later
    · exact earlier
    · obtain rfl := Option.some.inj (atM.symm.trans atN)
      exact absurd (Option.some.inj (extent.symm.trans extent')) different
    · obtain ⟨inside, rfl⟩ := List.getElem?_eq_some_iff.mp atM
      obtain ⟨inside', rfl⟩ := List.getElem?_eq_some_iff.mp atN
      have after := List.pairwise_iff_getElem.mp strict j i inside' inside later
      rw [Marker.order_eq_lt_iff, after] at before
      exact absurd rfl before
  · intro probes preamble source output accepted
    exact instrumentText_reading regular' ((sorted.map _).nodup_iff.mpr nodup) ordered accepted

/-- A condition that starts with its decision and is entered before it, and a statement that is braced. -/
theorem finalize_reading_order_shared_start :
    let entries : List Entry := [.evaluation ⟨⟨1, 1⟩, ⟨1, 2⟩⟩ .condition, .evaluation ⟨⟨1, 1⟩, ⟨1, 7⟩⟩ .decision,
      .braced ⟨⟨1, 1⟩, ⟨1, 8⟩⟩]
    let document := (({ sourceHash := "" } : Ledger).makeAll entries).2.finalize
    let output := Utf8.encode ("\x7b __coveron_checkpoint(3u); " ++
      "__coveron_evaluation(2, (__coveron_evaluation(1, (a) ? 1 : 0) && b) ? 1 : 0); \x7d")
    document.markers = [{ Marker.checkpoint 3 ⟨1, 1⟩ with scopeEnd := some ⟨1, 8⟩ },
        .evaluation 2 ⟨⟨1, 1⟩, ⟨1, 7⟩⟩ .decision, .evaluation 1 ⟨⟨1, 1⟩, ⟨1, 2⟩⟩ .condition] ∧
      instrumentText {} "" (Utf8.encode "a && b;") document.markers = .ok output ∧
      ∃ layout : Layout, output = Utf8.encode "" ++ layout.text {} ∧
        layout.parts.filterMap Part.opened? = document.markers := by
  intro entries document output
  obtain ⟨-, ⟨-, -, unique⟩, -, reading⟩ := finalize_reading_order "" entries (by decide)
  have markers := unique [{ Marker.checkpoint 3 ⟨1, 1⟩ with scopeEnd := some ⟨1, 8⟩ },
    .evaluation 2 ⟨⟨1, 1⟩, ⟨1, 7⟩⟩ .decision, .evaluation 1 ⟨⟨1, 1⟩, ⟨1, 2⟩⟩ .condition] (by decide) (by decide)
  let checkpoint : Marker := { Marker.checkpoint 3 ⟨1, 1⟩ with scopeEnd := some ⟨1, 8⟩ }
  let decision : Marker := .evaluation 2 ⟨⟨1, 1⟩, ⟨1, 7⟩⟩ .decision
  let condition : Marker := .evaluation 1 ⟨⟨1, 1⟩, ⟨1, 2⟩⟩ .condition
  have accepted : instrumentText {} "" (Utf8.encode "a && b;") document.markers = .ok output := by
    rw [← markers]
    refine (instrumentText_of_sorted "" [.opener checkpoint, .opener decision, .opener condition, .closer condition,
      .closer decision, .closer checkpoint] (by decide) (by decide +kernel) (by decide +kernel) (by decide +kernel)
      (by decide +kernel)).trans ?_
    decide +kernel
  obtain ⟨layout, text, -, -, opened, -⟩ := reading {} "" _ output accepted
  exact ⟨markers.symm, accepted, layout, text, opened⟩

end Ledger

end SourceCoverage
