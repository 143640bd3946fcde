import Mathlib.Data.List.Nodup
import SourceCoverage.Proofs.Document
import SourceCoverage.Proofs.LineIndex

namespace SourceCoverage

namespace Position

theorem compare_eq_lt {p q : Position} : compare p q = .lt ↔ p.toNat < q.toNat := by
  rw [← lt_iff_toNat]
  change (compare p.line q.line).then (compare p.column q.column) = .lt ↔ p.line < q.line ∨ p.line = q.line ∧
    p.column < q.column
  rw [Ordering.then_eq_lt, Std.compare_eq_lt, Std.compare_eq_lt, Std.LawfulEqOrd.compare_eq_iff_eq]

theorem compare_eq_eq {p q : Position} : compare p q = .eq ↔ p.toNat = q.toNat := by
  rw [← eq_iff_toNat]
  change (compare p.line q.line).then (compare p.column q.column) = .eq ↔ _
  rw [Ordering.then_eq_eq, Std.LawfulEqOrd.compare_eq_iff_eq, Std.LawfulEqOrd.compare_eq_iff_eq]
  obtain ⟨line, column⟩ := p
  obtain ⟨line', column'⟩ := q
  rw [Position.mk.injEq]

theorem compare_eq (p q : Position) : compare p q = compare p.toNat q.toNat := by
  cases order : compare p q with
  | lt => exact (Nat.compare_eq_lt.mpr (compare_eq_lt.mp order)).symm
  | eq => exact (Nat.compare_eq_eq.mpr (compare_eq_eq.mp order)).symm
  | gt =>
    have less : ¬ p.toNat < q.toNat := fun less => by simp [compare_eq_lt.mpr less] at order
    have same : p.toNat ≠ q.toNat := fun same => by simp [compare_eq_eq.mpr same] at order
    exact (Nat.compare_eq_gt.mpr (by omega)).symm

end Position

namespace Marker

/-- Where a section stops; checkpoints have none. -/
def stopNat (m : Marker) : Nat := (m.extent?.map (·.stop.toNat)).getD 0

variable {m n k : Marker}

theorem compare_isCheckpoint (m n : Marker) : compare n.isCheckpoint m.isCheckpoint =
    if m.rank = 0 then if n.rank = 0 then .eq else .lt else if n.rank = 0 then .gt else .eq := by
  obtain ⟨_, kind, _, _⟩ := m
  obtain ⟨_, kind', _, _⟩ := n
  rcases kind with _ | (_ | _) <;> rcases kind' with _ | (_ | _) <;> rfl

theorem Regular.compareExtents_eq (regular : m.Regular) (regular' : n.Regular) (tier : m.rank = 0 ↔ n.rank = 0) :
    compareExtents m.extent? n.extent? = compare n.stopNat m.stopNat := by
  cases regular with
  | checkpoint id position scopeEnd =>
    cases regular' with
    | checkpoint id' position' scopeEnd' => rfl
    | evaluation id' sect' kind' => cases kind' <;> cases tier.mp rfl
  | evaluation id sect kind =>
    cases regular' with
    | checkpoint id' position' scopeEnd' => cases kind <;> cases tier.mpr rfl
    | evaluation id' sect' kind' => exact Position.compare_eq _ _

/-- Document order by numbers: start, checkpoint or not, stop, rank and id. -/
theorem Regular.order_isLE_iff (regular : m.Regular) (regular' : n.Regular) : (m.order n).isLE ↔
    m.start.toNat < n.start.toNat ∨ m.start.toNat = n.start.toNat ∧ (m.rank = 0 ∧ 0 < n.rank ∨
      (m.rank = 0 ↔ n.rank = 0) ∧ (n.stopNat < m.stopNat ∨ n.stopNat = m.stopNat ∧
        (m.rank < n.rank ∨ m.rank = n.rank ∧ m.id.toNat ≤ n.id.toNat))) := by
  have ids : (compare m.id n.id).isLE ↔ m.id.toNat ≤ n.id.toNat := by
    rw [Std.isLE_compare, UInt32.le_iff_toNat_le]
  unfold order
  rw [Position.compare_eq, compare_isCheckpoint]
  by_cases tier : m.rank = 0 ↔ n.rank = 0
  · rw [regular.compareExtents_eq regular' tier]
    by_cases first : m.rank = 0
    · have second := tier.mp first
      simp only [Ordering.isLE_then_iff_or, ids, Nat.compare_eq_lt, Nat.compare_eq_eq, if_pos first, if_pos second]
      simp [first, second]
    · have second : ¬ n.rank = 0 := fun zero => first (tier.mpr zero)
      simp only [Ordering.isLE_then_iff_or, ids, Nat.compare_eq_lt, Nat.compare_eq_eq, if_neg first, if_neg second]
      simp [first, second]
  · simp only [Ordering.isLE_then_iff_or, Nat.compare_eq_lt, Nat.compare_eq_eq]
    by_cases first : m.rank = 0
    · have second : ¬ n.rank = 0 := fun zero => tier ⟨fun _ => zero, fun _ => first⟩
      simp [first, second, Nat.pos_of_ne_zero second]
    · have second : n.rank = 0 := by
        by_contra nonzero
        exact tier ⟨fun zero => absurd zero first, fun zero => absurd zero nonzero⟩
      simp [first, second]

theorem Regular.order_trans (regular : m.Regular) (regular' : n.Regular) (regular'' : k.Regular)
    (first : (m.order n).isLE) (second : (n.order k).isLE) : (m.order k).isLE := by
  rw [regular.order_isLE_iff regular'] at first
  rw [regular'.order_isLE_iff regular''] at second
  rw [regular.order_isLE_iff regular'']
  omega

theorem Regular.order_total (regular : m.Regular) (regular' : n.Regular) : (m.order n).isLE ∨ (n.order m).isLE := by
  rw [regular.order_isLE_iff regular', regular'.order_isLE_iff regular]
  omega

/-- In the end only ids decide. -/
theorem Regular.id_eq_of_order (regular : m.Regular) (regular' : n.Regular) (before : (m.order n).isLE)
    (after : (n.order m).isLE) : m.id = n.id := by
  rw [regular.order_isLE_iff regular'] at before
  rw [regular'.order_isLE_iff regular] at after
  rw [← UInt32.toNat_inj]
  omega

theorem compareExtents_swap (s t : Option Section) : (compareExtents s t).swap = compareExtents t s := by
  cases s with
  | none => cases t <;> rfl
  | some s =>
    cases t with
    | none => rfl
    | some t =>
      simp only [compareExtents, Position.compare_eq]
      exact Nat.compare_swap _ _

theorem order_swap (m n : Marker) : (m.order n).swap = n.order m := by
  unfold order
  simp only [Ordering.swap_then, Position.compare_eq, compareExtents_swap, Nat.compare_swap]
  rw [Std.OrientedOrd.eq_swap (a := m.id), Std.OrientedOrd.eq_swap (a := n.isCheckpoint), Ordering.swap_swap,
    Ordering.swap_swap]

theorem order_eq_lt_iff : m.order n = .lt ↔ ¬ (n.order m).isLE := by
  rw [← order_swap m n]
  cases m.order n <;> decide

theorem Regular.order_lt_trans (regular : m.Regular) (regular' : n.Regular) (regular'' : k.Regular)
    (first : m.order n = .lt) (second : n.order k = .lt) : m.order k = .lt := by
  rw [order_eq_lt_iff] at first second ⊢
  intro back
  have before := (regular.order_total regular').resolve_right first
  exact second (regular''.order_trans regular regular' back before)

/-- Sorted markers are in document order. -/
theorem pairwise_mergeSort_order {markers : List Marker} (regular : ∀ m ∈ markers, m.Regular) :
    (markers.mergeSort fun m n => (m.order n).isLE).Pairwise fun m n => (m.order n).isLE := by
  obtain ⟨typed, rfl⟩ : ∃ typed : List { m : Marker // m.Regular }, markers = typed.map Subtype.val :=
    ⟨markers.attachWith _ regular, by simp⟩
  rw [← List.map_mergeSort (f := Subtype.val) (r := fun m n => (m.val.order n.val).isLE) fun _ _ _ _ => rfl,
    List.pairwise_map]
  refine List.pairwise_mergeSort ?_ ?_ typed
  · exact fun m n k first second => m.property.order_trans n.property k.property first second
  · exact fun m n => Bool.or_eq_true_iff.mpr (m.property.order_total n.property)

/-- Markers that are told apart by their ids have one sorted form. -/
theorem eq_mergeSort_order {markers sorted : List Marker} (regular : ∀ m ∈ markers, m.Regular)
    (nodup : (markers.map Marker.id).Nodup) (same : sorted.Perm markers)
    (order : sorted.Pairwise fun m n => (m.order n).isLE) :
    sorted = markers.mergeSort fun m n => (m.order n).isLE := by
  have perm : sorted.Perm (markers.mergeSort fun m n => (m.order n).isLE) := same.trans (List.mergeSort_perm _ _).symm
  refine perm.eq_of_pairwise ?_ order (pairwise_mergeSort_order regular)
  intro m n first second before after
  have atM := same.mem_iff.mp first
  have atN := List.mem_mergeSort.mp second
  exact List.inj_on_of_nodup_map nodup atM atN ((regular m atM).id_eq_of_order (regular n atN) before after)

section Strict

variable {markers : List Marker} (regular : ∀ m ∈ markers, m.Regular) (nodup : (markers.map Marker.id).Nodup)

include regular nodup

theorem order_lt_of_isLE (atM : m ∈ markers) (atN : n ∈ markers) (different : m ≠ n) (before : (m.order n).isLE) :
    m.order n = .lt := by
  rw [order_eq_lt_iff]
  intro after
  exact different
    (List.inj_on_of_nodup_map nodup atM atN ((regular m atM).id_eq_of_order (regular n atN) before after))

/-- Document order tells any two markers apart. -/
theorem isStrictTotalOrder_order : IsStrictTotalOrder { m // m ∈ markers } fun m n => m.val.order n.val = .lt where
  trichotomous := by
    rintro ⟨m, atM⟩ ⟨n, atN⟩ notBefore notAfter
    refine Subtype.ext (by_contra fun different => ?_)
    rcases (regular m atM).order_total (regular n atN) with before | after
    · exact notBefore (order_lt_of_isLE regular nodup atM atN different before)
    · exact notAfter (order_lt_of_isLE regular nodup atN atM (Ne.symm different) after)
  irrefl := by
    rintro ⟨m, atM⟩ before
    have itself : (m.order m).isLE := by simpa using (regular m atM).order_total (regular m atM)
    exact order_eq_lt_iff.mp before itself
  trans := by
    rintro ⟨m, atM⟩ ⟨n, atN⟩ ⟨k, atK⟩ first second
    exact (regular m atM).order_lt_trans (regular n atN) (regular k atK) first second

theorem pairwise_mergeSort_lt :
    (markers.mergeSort fun m n => (m.order n).isLE).Pairwise fun m n => m.order n = .lt := by
  have distinct : (markers.mergeSort fun m n => (m.order n).isLE).Nodup :=
    (List.mergeSort_perm _ _).nodup_iff.mpr (nodup.of_map _)
  refine ((pairwise_mergeSort_order regular).and distinct).imp_of_mem ?_
  rintro m n atM atN ⟨before, different⟩
  exact order_lt_of_isLE regular nodup (List.mem_mergeSort.mp atM) (List.mem_mergeSort.mp atN) different before

end Strict

end Marker

end SourceCoverage
