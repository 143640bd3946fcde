import Mathlib.Data.List.Nodup
import Mathlib.Data.List.Perm.Basic
import SourceCoverage.Proofs.Instrumented.Laminar
import SourceCoverage.Proofs.Instrumented.Part
import SourceCoverage.Proofs.LineIndex

namespace SourceCoverage

/-- Every opener is closed by the closer of its own marker, inside what encloses it. -/
inductive WellNested : List Part → Prop
  | nil : WellNested []
  | checkpoint (m : Marker) {rest : List Part} : WellNested rest → WellNested (.checkpoint m :: rest)
  | enclose (m : Marker) {inside rest : List Part} : WellNested inside → WellNested rest →
      WellNested (.opener m :: (inside ++ .closer m :: rest))

/-- Every opener stands before its closer, and pairs do not cross. -/
structure Noncrossing (parts : List Part) : Prop where
  nodup : parts.Nodup
  paired : ∀ m, Part.opener m ∈ parts ↔ Part.closer m ∈ parts
  ordered : ∀ m, ¬ [Part.closer m, Part.opener m].Sublist parts
  uncrossed : ∀ m n, ¬ [Part.opener m, Part.opener n, Part.closer m, Part.closer n].Sublist parts

namespace Noncrossing

variable {before inside after : List Part} {m : Marker}

theorem tail (noncrossing : Noncrossing (.checkpoint m :: after)) : Noncrossing after where
  nodup := (List.nodup_cons.mp noncrossing.nodup).2
  paired n := by simpa using noncrossing.paired n
  ordered n crossing := noncrossing.ordered n (crossing.cons _)
  uncrossed n k crossing := noncrossing.uncrossed n k (crossing.cons _)

theorem mem_around {p : Part} :
    p ∈ before ++ .opener m :: (inside ++ .closer m :: after) ↔
      p ∈ before ∨ p = .opener m ∨ p ∈ inside ∨ p = .closer m ∨ p ∈ after := by
  simp

/-- What stands between an opener and its closer is paired within itself. -/
theorem within (noncrossing : Noncrossing (before ++ .opener m :: (inside ++ .closer m :: after))) :
    Noncrossing inside := by
  have part : inside.Sublist (before ++ .opener m :: (inside ++ .closer m :: after)) :=
    ((List.sublist_append_left _ _).cons _).trans (List.sublist_append_right _ _)
  obtain ⟨_, core, apart⟩ := List.nodup_append'.mp noncrossing.nodup
  obtain ⟨openerApart, core⟩ := List.nodup_cons.mp core
  obtain ⟨_, rest, apart'⟩ := List.nodup_append'.mp core
  refine ⟨noncrossing.nodup.sublist part, ?_, fun n crossing => noncrossing.ordered n (crossing.trans part),
    fun n k crossing => noncrossing.uncrossed n k (crossing.trans part)⟩
  intro n
  constructor
  · intro opened
    have closed := (noncrossing.paired n).mp (part.subset opened)
    rcases mem_around.mp closed with early | wrong | found | same | late
    · exfalso
      refine noncrossing.ordered n ?_
      exact (List.singleton_sublist.mpr early).append
        (((List.singleton_sublist.mpr opened).trans (List.sublist_append_left _ _)).cons _)
    · cases wrong
    · exact found
    · cases same
      exact absurd (List.mem_append_left _ opened) openerApart
    · exfalso
      refine noncrossing.uncrossed m n ?_
      refine List.Sublist.trans ?_ (List.sublist_append_right _ _)
      exact ((List.singleton_sublist.mpr opened).append ((List.singleton_sublist.mpr late).cons_cons _)).cons_cons _
  · intro closed
    have opened := (noncrossing.paired n).mpr (part.subset closed)
    rcases mem_around.mp opened with early | same | found | wrong | late
    · exfalso
      refine noncrossing.uncrossed n m ?_
      refine (List.singleton_sublist.mpr early).append ?_
      exact ((List.singleton_sublist.mpr closed).append ((List.nil_sublist _).cons_cons _)).cons_cons _
    · cases same
      exact absurd List.mem_cons_self (apart' closed)
    · exact found
    · cases wrong
    · exfalso
      refine noncrossing.ordered n ?_
      refine List.Sublist.trans ?_ (List.sublist_append_right _ _)
      exact ((List.singleton_sublist.mpr closed).append ((List.singleton_sublist.mpr late).cons _)).cons _

/-- What stands behind the first pair is paired within itself. -/
theorem behind (noncrossing : Noncrossing (.opener m :: (inside ++ .closer m :: after))) :
    Noncrossing after := by
  have part : after.Sublist (.opener m :: (inside ++ .closer m :: after)) :=
    (((List.sublist_cons_self _ _).trans (List.sublist_append_right _ _))).cons _
  have framed : Noncrossing ([] ++ .opener m :: (inside ++ .closer m :: after)) := noncrossing
  have within : Noncrossing inside := framed.within
  obtain ⟨openerApart, core⟩ := List.nodup_cons.mp noncrossing.nodup
  obtain ⟨_, rest, apart⟩ := List.nodup_append'.mp core
  obtain ⟨closerApart, _⟩ := List.nodup_cons.mp rest
  refine ⟨noncrossing.nodup.sublist part, ?_, fun n crossing => noncrossing.ordered n (crossing.trans part),
    fun n k crossing => noncrossing.uncrossed n k (crossing.trans part)⟩
  intro n
  constructor
  · intro opened
    have closed := (noncrossing.paired n).mp (part.subset opened)
    rcases List.mem_cons.mp closed with wrong | later
    · cases wrong
    rcases List.mem_append.mp later with early | late
    · exact absurd (List.mem_cons_of_mem _ opened) (apart ((within.paired n).mpr early))
    rcases List.mem_cons.mp late with same | found
    · cases same
      exact absurd (List.mem_append_right _ (List.mem_cons_of_mem _ opened)) openerApart
    · exact found
  · intro closed
    have opened := (noncrossing.paired n).mpr (part.subset closed)
    rcases List.mem_cons.mp opened with same | later
    · cases same
      exact absurd closed closerApart
    rcases List.mem_append.mp later with early | late
    · exact absurd (List.mem_cons_of_mem _ closed) (apart ((within.paired n).mp early))
    rcases List.mem_cons.mp late with wrong | found
    · cases wrong
    · exact found

theorem wellNested {parts : List Part} (noncrossing : Noncrossing parts) : WellNested parts := by
  -- Each case leaves shorter lists: the rest, or the inside and the rest of the first pair.
  induction length : parts.length using Nat.strong_induction_on generalizing parts with
  | _ n ih =>
    cases parts with
    | nil => exact .nil
    | cons p rest =>
      rw [List.length_cons] at length
      cases p with
      | checkpoint m => exact .checkpoint m (ih _ (by omega) noncrossing.tail rfl)
      | closer m =>
        have opened := (noncrossing.paired m).mpr List.mem_cons_self
        have later : Part.opener m ∈ rest := (List.mem_cons.mp opened).resolve_left (by simp)
        exact absurd ((List.singleton_sublist.mpr later).cons_cons _) (noncrossing.ordered m)
      | opener m =>
        have closed := (noncrossing.paired m).mp List.mem_cons_self
        have later : Part.closer m ∈ rest := (List.mem_cons.mp closed).resolve_left (by simp)
        obtain ⟨inside, after, rfl⟩ := List.append_of_mem later
        rw [List.length_append, List.length_cons] at length
        have framed : Noncrossing ([] ++ .opener m :: (inside ++ .closer m :: after)) := noncrossing
        exact .enclose m (ih _ (by omega) framed.within rfl) (ih _ (by omega) noncrossing.behind rfl)

end Noncrossing

namespace Insertion

theorem order_isLE_iff {a b : Insertion} :
    (a.order b).isLE ↔ a.offset < b.offset ∨ a.offset = b.offset ∧
      (a.kind.rank < b.kind.rank ∨ a.kind.rank = b.kind.rank ∧
        match a.kind with
        | .close => b.span.start < a.span.start ∨ b.span.start = a.span.start ∧
          (b.span.rank < a.span.rank ∨ b.span.rank = a.span.rank ∧ a.span.id.toNat ≤ b.span.id.toNat)
        | .checkpointOpen => a.span.id.toNat ≤ b.span.id.toNat
        | .evaluationOpen => b.span.stop < a.span.stop ∨ b.span.stop = a.span.stop ∧
          (a.span.rank < b.span.rank ∨ a.span.rank = b.span.rank ∧ a.span.id.toNat ≤ b.span.id.toNat)) := by
  have ids : (compare a.span.id b.span.id).isLE ↔ a.span.id.toNat ≤ b.span.id.toNat := by
    rw [Std.isLE_compare, UInt32.le_iff_toNat_le]
  cases kind : a.kind <;>
    simp [order, compareNesting, kind, Ordering.isLE_then_iff_or, Ordering.then_eq_lt, Nat.compare_eq_lt,
      ids] <;> omega

theorem order_trans {a b c : Insertion} (first : (a.order b).isLE) (second : (b.order c).isLE) :
    (a.order c).isLE := by
  rw [order_isLE_iff] at *
  cases kindA : a.kind <;> cases kindB : b.kind <;> cases kindC : c.kind <;>
    simp only [kindA, kindB, kindC, InsertionClass.rank, true_and] at first second ⊢ <;> omega

theorem order_total (a b : Insertion) : (a.order b).isLE ∨ (b.order a).isLE := by
  simp only [order_isLE_iff]
  cases kindA : a.kind <;> cases kindB : b.kind <;> simp only [InsertionClass.rank, true_and] <;> omega

end Insertion

/-- No two markers claim one place: nothing that is enclosed is empty, a section is evaluated once in
each way, a position has one checkpoint, and no braced statement starts an expression that goes on
behind it. -/
structure Unambiguous (markers : List Marker) : Prop where
  nonempty : ∀ m ∈ markers, ∀ sect, m.bracket? = some sect → sect.start ≠ sect.stop
  evaluations : markers.Pairwise fun m n => ∀ kind, m.kind = .evaluation kind →
    n.kind = .evaluation kind → m.extent? ≠ n.extent?
  checkpoints : markers.Pairwise fun m n => m.kind = .checkpoint → n.kind = .checkpoint → m.start ≠ n.start
  scopes : ∀ m ∈ markers, ∀ n ∈ markers, ∀ scope sect kind, m.kind = .checkpoint → m.scope? = some scope →
    n.kind = .evaluation kind → n.extent? = some sect → scope.start = sect.start → ¬ scope.stop < sect.stop

namespace Unambiguous

variable {markers : List Marker}

theorem nodup (unambiguous : Unambiguous markers) : markers.Nodup := by
  refine (unambiguous.evaluations.and unambiguous.checkpoints).imp ?_
  rintro m _ ⟨evaluation, checkpoint⟩ rfl
  cases kind : m.kind with
  | checkpoint => exact checkpoint kind kind rfl
  | evaluation e => exact evaluation e kind kind rfl

theorem eq_of_evaluation (unambiguous : Unambiguous markers) {m n : Marker} {kind : EvaluationKind}
    (atM : m ∈ markers) (atN : n ∈ markers) (evaluates : m.kind = .evaluation kind)
    (evaluates' : n.kind = .evaluation kind) (same : m.extent? = n.extent?) : m = n := by
  by_contra different
  have symmetric : Std.Symm fun m n : Marker => ∀ kind, m.kind = .evaluation kind →
      n.kind = .evaluation kind → m.extent? ≠ n.extent? :=
    ⟨fun _ _ apart kind first second equal => apart kind second first equal.symm⟩
  exact unambiguous.evaluations.forall atM atN different kind evaluates evaluates' same

theorem eq_of_checkpoint (unambiguous : Unambiguous markers) {m n : Marker}
    (atM : m ∈ markers) (atN : n ∈ markers) (checks : m.kind = .checkpoint)
    (checks' : n.kind = .checkpoint) (same : m.start = n.start) : m = n := by
  by_contra different
  have symmetric : Std.Symm fun m n : Marker => m.kind = .checkpoint → n.kind = .checkpoint →
      m.start ≠ n.start := ⟨fun _ _ apart first second equal => apart second first equal.symm⟩
  exact unambiguous.checkpoints.forall atM atN different checks checks' same

end Unambiguous

theorem Marker.bracket?_start {m : Marker} {sect : Section} (bracket : m.bracket? = some sect) :
    sect.start = m.start := by
  obtain ⟨id, kind, location, scopeEnd⟩ := m
  cases kind with
  | checkpoint =>
    cases scopeEnd with
    | none => simp [Marker.bracket?, Marker.scope?] at bracket
    | some stop => simp [Marker.bracket?, Marker.scope?] at bracket; rw [← bracket]
  | evaluation kind =>
    cases location with
    | point p => simp [Marker.bracket?, Marker.extent?] at bracket
    | extent s => simp [Marker.bracket?, Marker.extent?] at bracket; rw [← bracket]; rfl

namespace Marker

theorem kind_eq_of_rank {m n : Marker} (ranks : m.rank = n.rank) : m.kind = n.kind := by
  obtain ⟨_, kind, _, _⟩ := m
  obtain ⟨_, kind', _, _⟩ := n
  rcases kind with _ | (_ | _) <;> rcases kind' with _ | (_ | _) <;> simp_all [rank]

theorem mem_parts_checkpoint {m n : Marker} : Part.checkpoint m ∈ n.parts ↔ m = n ∧ n.bracket? = none := by
  unfold parts
  cases n.bracket? <;> simp

theorem mem_parts_opener {m n : Marker} :
    Part.opener m ∈ n.parts ↔ m = n ∧ ∃ sect, n.bracket? = some sect := by
  unfold parts
  cases n.bracket? <;> simp

theorem mem_parts_closer {m n : Marker} :
    Part.closer m ∈ n.parts ↔ m = n ∧ ∃ sect, n.bracket? = some sect := by
  unfold parts
  cases n.bracket? <;> simp

theorem parts_nodup (m : Marker) : m.parts.Nodup := by
  unfold parts
  cases m.bracket? <;> simp

theorem marker_of_mem_parts {m : Marker} {p : Part} (member : p ∈ m.parts) : p.marker = m := by
  unfold parts at member
  cases bracket : m.bracket? with
  | none =>
    rw [bracket] at member
    cases List.mem_singleton.mp member
    rfl
  | some sect =>
    rw [bracket] at member
    simp only [List.mem_cons, List.not_mem_nil, or_false] at member
    rcases member with rfl | rfl <;> rfl

/-- The parts of a marker are of different classes. -/
theorem eq_of_part_kind {m : Marker} {p q : Part} (part : p ∈ m.parts) (part' : q ∈ m.parts)
    (kinds : p.kind = q.kind) : p = q := by
  have opens : (Part.opener m).kind ≠ (Part.closer m).kind := by
    simp only [Part.kind]
    split <;> simp
  unfold parts at part part'
  cases bracket : m.bracket? with
  | none =>
    rw [bracket, List.mem_singleton] at part part'
    rw [part, part']
  | some sect =>
    rw [bracket, List.mem_pair] at part part'
    rcases part with rfl | rfl <;> rcases part' with rfl | rfl
    · rfl
    · exact absurd kinds opens
    · exact absurd kinds.symm opens
    · rfl

end Marker

/-- Only insertions of one class for one marker can stand either way round. -/
theorem Insertion.order_antisymm {a b : Insertion} (before : (a.order b).isLE) (after : (b.order a).isLE) :
    a.kind = b.kind ∧ a.span.id = b.span.id := by
  rw [order_isLE_iff] at before after
  have ranks : a.kind.rank = b.kind.rank := by omega
  have kinds : a.kind = b.kind := by
    cases kindA : a.kind <;> cases kindB : b.kind <;> simp [kindA, kindB, InsertionClass.rank] at ranks <;> rfl
  refine ⟨kinds, UInt32.toNat_inj.mp ?_⟩
  cases kindB : b.kind <;> simp only [kinds, kindB] at before after <;> omega

namespace Instrumenter

variable {i : Instrumenter} {markers : List Marker}

theorem mem_sortedParts {p : Part} : p ∈ i.sortedParts markers ↔ ∃ m ∈ markers, p ∈ m.parts := by
  simp [sortedParts, List.mem_mergeSort, List.mem_flatMap]

theorem opener_mem_sortedParts {m : Marker} :
    Part.opener m ∈ i.sortedParts markers ↔ m ∈ markers ∧ ∃ sect, m.bracket? = some sect := by
  simp only [mem_sortedParts, Marker.mem_parts_opener]
  constructor
  · rintro ⟨_, member, rfl, bracket⟩
    exact ⟨member, bracket⟩
  · rintro ⟨member, bracket⟩
    exact ⟨m, member, rfl, bracket⟩

theorem closer_mem_sortedParts {m : Marker} :
    Part.closer m ∈ i.sortedParts markers ↔ m ∈ markers ∧ ∃ sect, m.bracket? = some sect := by
  simp only [mem_sortedParts, Marker.mem_parts_closer]
  constructor
  · rintro ⟨_, member, rfl, bracket⟩
    exact ⟨member, bracket⟩
  · rintro ⟨member, bracket⟩
    exact ⟨m, member, rfl, bracket⟩

theorem sortedParts_perm : (i.sortedParts markers).Perm (markers.flatMap Marker.parts) :=
  List.mergeSort_perm _ _

theorem sortedParts_nodup (unambiguous : Unambiguous markers) : (i.sortedParts markers).Nodup := by
  rw [sortedParts_perm.nodup_iff, List.nodup_flatMap]
  refine ⟨fun m _ => m.parts_nodup, unambiguous.nodup.imp ?_⟩
  intro m n different p first second
  exact different ((Marker.marker_of_mem_parts first).symm.trans (Marker.marker_of_mem_parts second))

theorem sortedParts_sorted : (i.sortedParts markers).Pairwise fun p q =>
    ((i.insertionOf p).order (i.insertionOf q)).isLE := by
  apply List.pairwise_mergeSort
  · intro _ _ _
    exact Insertion.order_trans
  · intro p q
    rw [Bool.or_eq_true]
    exact Insertion.order_total _ _

variable {source : Octets} {probes : Probes} {m n : Marker}

theorem Accepts.offset?_eq {i : Instrumenter} {p : Position} (accepted : i.Accepts p) :
    i.lines.offset? p = some (i.offsetOf p) := by
  obtain ⟨offset, atP, _⟩ := accepted
  rw [offsetOf, atP, Option.getD_some]

/-- The span of a section that fits has the offsets of its ends. -/
theorem Fits.offsets (fits : (ofSource source probes).Fits m) {sect : Section} (bracket : m.bracket? = some sect) :
    (LineIndex.ofText source).offset? sect.start = some ((ofSource source probes).spanOf m).start ∧
      (LineIndex.ofText source).offset? sect.stop = some ((ofSource source probes).spanOf m).stop := by
  simp only [Fits, bracket] at fits
  simp only [spanOf, bracket]
  exact ⟨fits.2.1.offset?_eq, fits.2.2.offset?_eq⟩

theorem Fits.start_lt_stop (fits : (ofSource source probes).Fits m) {sect : Section}
    (bracket : m.bracket? = some sect) (nonempty : sect.start ≠ sect.stop) :
    ((ofSource source probes).spanOf m).start < ((ofSource source probes).spanOf m).stop := by
  obtain ⟨atStart, atStop⟩ := fits.offsets bracket
  simp only [Fits, bracket] at fits
  rcases Position.le_iff_lt_or_eq.mp fits.1 with before | same
  · exact LineIndex.offset?_lt_offset? atStart atStop before
  · exact absurd same nonempty

@[simp] theorem spanOf_id (i : Instrumenter) (m : Marker) : (i.spanOf m).id = m.id := by
  unfold spanOf
  split <;> rfl

@[simp] theorem spanOf_rank (i : Instrumenter) (m : Marker) : (i.spanOf m).rank = m.rank := by
  unfold spanOf
  split <;> rfl

/-- Accepted sections are pairwise compatible. -/
theorem spanOf_compatible {i : Instrumenter} (uncrossed : Span.firstCrossing? (i.spans markers) = none)
    (atM : m ∈ markers) (atN : n ∈ markers) (different : m ≠ n) {sect sect' : Section}
    (bracket : m.bracket? = some sect) (bracket' : n.bracket? = some sect') :
    Span.compatible (i.spanOf m) (i.spanOf n) := by
  have pairs := (List.pairwise_flatMap.mp (Span.compatible_of_firstCrossing? uncrossed)).2
  have symmetric : Std.Symm fun m n : Marker => ∀ a ∈ m.bracket?.toList.map fun _ => i.spanOf m,
      ∀ b ∈ n.bracket?.toList.map fun _ => i.spanOf n, Span.compatible a b :=
    ⟨fun _ _ across a first b second => Span.compatible_comm.mp (across b second a first)⟩
  exact pairs.forall atM atN different _ (by simp [bracket]) _ (by simp [bracket'])

theorem order_opener_closer {i : Instrumenter}
    (before : ((i.insertionOf (.opener n)).order (i.insertionOf (.closer m))).isLE) :
    (i.spanOf n).start < (i.spanOf m).stop := by
  simp only [Insertion.order_isLE_iff, insertionOf, placeOf, Part.kind] at before
  by_cases checks : n.isCheckpoint = true
  · simp only [checks, if_true, InsertionClass.rank] at before
    omega
  · simp only [checks, Bool.false_eq_true, if_false, InsertionClass.rank] at before
    omega

theorem order_closers {i : Instrumenter}
    (before : ((i.insertionOf (.closer m)).order (i.insertionOf (.closer n))).isLE) :
    (i.spanOf m).stop < (i.spanOf n).stop ∨ (i.spanOf m).stop = (i.spanOf n).stop ∧
      ((i.spanOf n).start < (i.spanOf m).start ∨
        (i.spanOf n).start = (i.spanOf m).start ∧ n.rank ≤ m.rank) := by
  simp only [Insertion.order_isLE_iff, insertionOf, placeOf, Part.kind, Part.marker, spanOf_rank] at before
  omega

/-- Openers at one offset: that of a checkpoint comes first, then the longer section, then the decision. -/
theorem order_openers {i : Instrumenter}
    (before : ((i.insertionOf (.opener m)).order (i.insertionOf (.opener n))).isLE) :
    (i.spanOf m).start < (i.spanOf n).start ∨ (i.spanOf m).start = (i.spanOf n).start ∧
      (m.kind = .checkpoint ∨ m.kind ≠ .checkpoint ∧ n.kind ≠ .checkpoint ∧
        ((i.spanOf n).stop < (i.spanOf m).stop ∨
          (i.spanOf n).stop = (i.spanOf m).stop ∧ m.rank ≤ n.rank)) := by
  simp only [Insertion.order_isLE_iff, insertionOf, placeOf, Part.kind, Part.marker, spanOf_rank,
    Marker.isCheckpoint, beq_iff_eq] at before
  by_cases checks : m.kind = .checkpoint
  · simp only [checks, true_or, and_true]
    omega
  · by_cases checks' : n.kind = .checkpoint
    · simp only [checks, checks', if_true, if_false, InsertionClass.rank] at before
      omega
    · simp only [checks, checks', if_false, InsertionClass.rank, true_and] at before
      simp only [checks, checks', ne_eq, not_false_eq_true, true_and, false_or]
      omega

/-- Two markers that enclose the same octets differ in rank. -/
theorem eq_of_span {sect sect' : Section} (fits : (ofSource source probes).Fits m)
    (fits' : (ofSource source probes).Fits n) (unambiguous : Unambiguous markers)
    (atM : m ∈ markers) (atN : n ∈ markers) (bracket : m.bracket? = some sect)
    (bracket' : n.bracket? = some sect')
    (starts : ((ofSource source probes).spanOf m).start = ((ofSource source probes).spanOf n).start)
    (stops : ((ofSource source probes).spanOf m).stop = ((ofSource source probes).spanOf n).stop)
    (ranks : m.rank = n.rank) : m = n := by
  obtain ⟨atStart, atStop⟩ := fits.offsets bracket
  obtain ⟨atStart', atStop'⟩ := fits'.offsets bracket'
  have sameStart := LineIndex.offset?_injective (starts ▸ atStart) atStart'
  have sameStop := LineIndex.offset?_injective (stops ▸ atStop) atStop'
  have kinds := Marker.kind_eq_of_rank ranks
  cases kind : m.kind with
  | checkpoint =>
    have kind' := kinds ▸ kind
    refine unambiguous.eq_of_checkpoint atM atN kind kind' ?_
    rw [← Marker.bracket?_start bracket, ← Marker.bracket?_start bracket', sameStart]
  | evaluation e =>
    have kind' := kinds ▸ kind
    refine unambiguous.eq_of_evaluation atM atN kind kind' ?_
    simp only [Marker.bracket?, kind, kind'] at bracket bracket'
    rw [bracket, bracket']
    exact congrArg some (by cases sect; cases sect'; simp_all)

theorem start_ne_start (fits : (ofSource source probes).Fits m)
    (fits' : (ofSource source probes).Fits n) (unambiguous : Unambiguous markers)
    (atM : m ∈ markers) (atN : n ∈ markers) {sect sect' : Section} (bracket : m.bracket? = some sect)
    (bracket' : n.bracket? = some sect') (different : m ≠ n) (checks : m.kind = .checkpoint)
    (inside : ((ofSource source probes).spanOf m).stop < ((ofSource source probes).spanOf n).stop) :
    ((ofSource source probes).spanOf m).start ≠ ((ofSource source probes).spanOf n).start := by
  intro starts
  obtain ⟨atStart, atStop⟩ := fits.offsets bracket
  obtain ⟨atStart', atStop'⟩ := fits'.offsets bracket'
  have sameStart := LineIndex.offset?_injective (starts ▸ atStart) atStart'
  cases kind : n.kind with
  | checkpoint =>
    refine different (unambiguous.eq_of_checkpoint atM atN checks kind ?_)
    rw [← Marker.bracket?_start bracket, ← Marker.bracket?_start bracket', sameStart]
  | evaluation e =>
    simp only [Marker.bracket?, checks, kind] at bracket bracket'
    exact unambiguous.scopes m atM n atN sect sect' e checks bracket kind bracket' sameStart
      (LineIndex.lt_of_offset?_lt atStop atStop' inside)

theorem sortedParts_noncrossing (fits : ∀ m ∈ markers, (ofSource source probes).Fits m)
    (uncrossed : Span.firstCrossing? ((ofSource source probes).spans markers) = none)
    (unambiguous : Unambiguous markers) : Noncrossing ((ofSource source probes).sortedParts markers) where
  nodup := sortedParts_nodup unambiguous
  paired m := by rw [opener_mem_sortedParts, closer_mem_sortedParts]
  ordered m crossing := by
    have sorted := sortedParts_sorted.sublist crossing
    have member := crossing.subset (List.mem_cons_of_mem _ List.mem_cons_self)
    obtain ⟨atM, sect, bracket⟩ := opener_mem_sortedParts.mp member
    have wide := (fits m atM).start_lt_stop bracket (unambiguous.nonempty m atM sect bracket)
    have before := (List.pairwise_cons.mp sorted).1 _ List.mem_cons_self
    simp only [Insertion.order_isLE_iff, insertionOf, placeOf] at before
    omega
  uncrossed m n crossing := by
    have sorted := sortedParts_sorted.sublist crossing
    have opened : Part.opener m ∈ _ := crossing.subset (by simp)
    have opened' : Part.opener n ∈ _ := crossing.subset (by simp)
    obtain ⟨atM, sect, bracket⟩ := opener_mem_sortedParts.mp opened
    obtain ⟨atN, sect', bracket'⟩ := opener_mem_sortedParts.mp opened'
    have different : m ≠ n := by
      rintro rfl
      have := (sortedParts_nodup unambiguous).sublist crossing
      simp at this
    have compatible := spanOf_compatible uncrossed atM atN different bracket bracket'
    have wide := (fits m atM).start_lt_stop bracket (unambiguous.nonempty m atM sect bracket)
    have wide' := (fits n atN).start_lt_stop bracket' (unambiguous.nonempty n atN sect' bracket')
    simp only [List.pairwise_cons, List.mem_cons, List.not_mem_nil, or_false, forall_eq_or_imp,
      forall_eq] at sorted
    have openers := order_openers sorted.1.1
    have within := order_opener_closer sorted.2.1.1
    have closers := order_closers sorted.2.2.1
    have same := eq_of_span (fits m atM) (fits n atN) unambiguous atM atN bracket bracket'
    have unscoped := start_ne_start (fits m atM) (fits n atN) unambiguous atM atN bracket bracket' different
    unfold Span.compatible at compatible
    by_cases checks : m.kind = .checkpoint
    · -- A braced statement opens before everything else at its offset.
      have outer : m.rank = 0 := by simp [Marker.rank, checks]
      have start := unscoped checks
      by_cases starts : ((ofSource source probes).spanOf m).start = ((ofSource source probes).spanOf n).start
      · by_cases inner : ((ofSource source probes).spanOf m).stop < ((ofSource source probes).spanOf n).stop
        · exact start inner starts
        · exact different (same starts (by omega) (by omega))
      · omega
    · simp only [checks, false_or, ne_eq, not_false_eq_true, true_and] at openers
      by_cases starts : ((ofSource source probes).spanOf m).start = ((ofSource source probes).spanOf n).start
      · exact different (same starts (by omega) (by omega))
      · omega

/-- The parts of markers that are told apart by their ids can be sorted in one way only. -/
theorem eq_sortedParts {parts : List Part} (distinct : (markers.map Marker.id).Nodup)
    (same : parts.Perm (markers.flatMap Marker.parts))
    (sorted : parts.Pairwise fun p q => ((i.insertionOf p).order (i.insertionOf q)).isLE) :
    parts = i.sortedParts markers := by
  refine (same.trans sortedParts_perm.symm).eq_of_pairwise ?_ sorted sortedParts_sorted
  intro p q atP atQ before after
  obtain ⟨m, atM, part⟩ := List.mem_flatMap.mp (same.mem_iff.mp atP)
  obtain ⟨n, atN, part'⟩ := mem_sortedParts.mp atQ
  obtain ⟨kinds, ids⟩ := Insertion.order_antisymm before after
  simp only [insertionOf, Marker.marker_of_mem_parts part, Marker.marker_of_mem_parts part', spanOf_id] at ids
  obtain rfl := List.inj_on_of_nodup_map distinct atM atN ids
  exact Marker.eq_of_part_kind part part' kinds

end Instrumenter

/-- What comes out when a text is instrumented, if the order of the parts is known. -/
theorem instrumentText_of_sorted {probes : Probes} {source : Octets} {markers : List Marker} (preamble : String)
    (parts : List Part) (distinct : (markers.map Marker.id).Nodup) (same : parts.Perm (markers.flatMap Marker.parts))
    (sorted : parts.Pairwise fun p q => (((Instrumenter.ofSource source probes).insertionOf p).order
      ((Instrumenter.ofSource source probes).insertionOf q)).isLE)
    (fits : ∀ m ∈ markers, (Instrumenter.ofSource source probes).Fits m)
    (compatible : ∀ a ∈ (Instrumenter.ofSource source probes).spans markers,
      ∀ b ∈ (Instrumenter.ofSource source probes).spans markers, Span.compatible a b) :
    instrumentText probes preamble source markers = .ok (Utf8.encode preamble ++
      Insertion.splice 0 source (parts.map (Instrumenter.ofSource source probes).insertionOf)) := by
  rw [Instrumenter.eq_sortedParts distinct same sorted, instrumentText_eq_ok_iff]
  have uncrossed := Span.firstCrossing?_eq_none_iff.mpr compatible
  exact ⟨_, Instrumenter.instrument_eq_ok_iff.mpr ⟨fits, uncrossed, rfl⟩, rfl⟩

end SourceCoverage
