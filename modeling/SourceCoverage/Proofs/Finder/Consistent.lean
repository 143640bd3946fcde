import Mathlib.Data.List.Nodup
import SourceCoverage.Proofs.Condition
import SourceCoverage.Proofs.Document
import SourceCoverage.Proofs.Finder.Entered

namespace SourceCoverage

/-- The numbers above `count` up to `count + length`, as ids. -/
def MarkerId.IsAmong (id : MarkerId) (count length : Nat) : Prop :=
  ∃ k, count < k ∧ k ≤ count + length ∧ id = k.toUInt32

theorem MarkerId.IsAmong.mono {id : MarkerId} {count length count' length' : Nat} (among : id.IsAmong count length)
    (low : count' ≤ count) (high : count + length ≤ count' + length') : id.IsAmong count' length' := by
  obtain ⟨k, above, below, rfl⟩ := among
  exact ⟨k, by omega, by omega, rfl⟩

namespace ConditionTree

/-- Every marker that a tree speaks of. -/
def references (t : ConditionTree) : List MarkerId := t.conditions ++ t.operatorMarkers

end ConditionTree

namespace Finder

variable {policy : DecisionPolicy}

theorem references_treeOf (isRoot : Bool) (count : Nat) (expr : DecisionExpr) :
    ∀ id ∈ (treeOf policy isRoot count expr).references,
      id.IsAmong count (treeFindings policy isRoot expr).length := by
  induction expr generalizing isRoot count with
  | leaf node =>
    intro id member
    obtain rfl : id = (count + 1).toUInt32 := List.mem_singleton.mp member
    exact ⟨count + 1, by omega, Nat.le_refl _, rfl⟩
  | not sect operand ih =>
    intro id member
    rw [ConditionTree.references, treeOf, ConditionTree.conditions_not] at member
    exact ih false count id member
  | join op sect left right leftIh rightIh =>
    intro id member
    have inLeft := leftIh false (if !isRoot && policy == .allNodes then count + 1 else count)
    have inRight := rightIh false ((if !isRoot && policy == .allNodes then count + 1 else count) +
      (treeFindings policy false left).length)
    simp only [ConditionTree.references, treeOf, ConditionTree.conditions_join, ConditionTree.operatorMarkers,
      List.mem_append, or_assoc] at member inLeft inRight
    rw [length_treeFindings_join]
    rcases member with inside | inside | own | inside | inside
    · exact (inLeft id (Or.inl inside)).mono (by split <;> omega) (by split <;> omega)
    · exact (inRight id (Or.inl inside)).mono (by split <;> omega) (by split <;> omega)
    · split at own
      · rename_i marked
        obtain rfl : id = (count + 1).toUInt32 := by simpa using own
        exact ⟨count + 1, by omega, by rw [if_pos marked]; omega, rfl⟩
      · cases own
    · exact (inLeft id (Or.inr inside)).mono (by split <;> omega) (by split <;> omega)
    · exact (inRight id (Or.inr inside)).mono (by split <;> omega) (by split <;> omega)

theorem references_decisionOf (count : Nat) (expr : DecisionExpr) :
    ∀ id ∈ (decisionOf policy count expr).references, id.IsAmong count (decisionFindings policy expr []).length := by
  intro id member
  rw [length_decisionFindings]
  rcases List.mem_cons.mp member with rfl | inside
  · exact ⟨count + 1, by omega, by omega, rfl⟩
  · exact (references_treeOf true (count + 1) expr id inside).mono (by omega) (by omega)

mutual

theorem recorded_step (step : Step) (count : Nat) : ∀ d ∈ step.decisions policy count, ∃ before expr,
    d = decisionOf policy before expr ∧ count ≤ before ∧
      before + (decisionFindings policy expr []).length ≤ count + (step.findings policy).length := by
  match step with
  | .checkpoint sect braced => exact fun d absent => nomatch absent
  | .decision expr inside =>
    intro d member
    rw [Step.findings_decision, List.length_append]
    rw [Step.decisions] at member
    rcases List.mem_cons.mp member with rfl | later
    · exact ⟨count, expr, rfl, Nat.le_refl _, by omega⟩
    · obtain ⟨before, expr', rfl, low, high⟩ := recorded_steps inside _ d later
      exact ⟨before, expr', rfl, by omega, by omega⟩
  | .visit steps =>
    rw [Step.decisions, Step.findings]
    exact recorded_steps steps count

/-- Every decision is recorded with the number of markers before it, and all its markers are entered by the steps. -/
theorem recorded_steps (steps : List Step) (count : Nat) : ∀ d ∈ decisionsAll policy count steps, ∃ before expr,
    d = decisionOf policy before expr ∧ count ≤ before ∧
      before + (decisionFindings policy expr []).length ≤ count + (findingsAll policy steps).length := by
  match steps with
  | [] => exact fun d absent => nomatch absent
  | step :: steps =>
    intro d member
    rw [findingsAll, List.length_append]
    rw [decisionsAll] at member
    rcases List.mem_append.mp member with first | later
    · obtain ⟨before, expr, rfl, low, high⟩ := recorded_step step count d first
      exact ⟨before, expr, rfl, low, by omega⟩
    · obtain ⟨before, expr, rfl, low, high⟩ := recorded_steps steps _ d later
      exact ⟨before, expr, rfl, by omega, by omega⟩

end

/-- Decisions refer to markers that are entered with them. -/
theorem references_steps (steps : List Step) (count : Nat) : ∀ d ∈ decisionsAll policy count steps,
    ∀ id ∈ d.references, id.IsAmong count (findingsAll policy steps).length := by
  intro d member id reference
  obtain ⟨before, expr, rfl, low, high⟩ := recorded_steps steps count d member
  exact (references_decisionOf before expr id reference).mono low high

theorem map_id_numbered (count : Nat) (findings : List Finding) :
    (numbered count findings).map Marker.id = (List.range' (count + 1) findings.length).map Nat.toUInt32 := by
  induction findings generalizing count with
  | nil => rfl
  | cons f findings ih =>
    have first : numbered count (f :: findings) = f.marker (count + 1).toUInt32 :: numbered (count + 1) findings :=
      rfl
    have id : (f.marker (count + 1).toUInt32).id = (count + 1).toUInt32 := by cases f <;> rfl
    rw [first, List.map_cons, id, ih, List.length_cons, List.range'_succ, List.map_cons]

/-- Ids repeat only once all of them are given. -/
theorem nodup_ids_iff (length : Nat) :
    ((List.range' 1 length).map Nat.toUInt32).Nodup ↔ length ≤ 2 ^ 32 := by
  constructor
  · intro nodup
    by_contra long
    have repeated := (List.nodup_map_iff_inj_on List.nodup_range').mp nodup 1 (List.mem_range'_1.mpr (by omega))
      (1 + 2 ^ 32) (List.mem_range'_1.mpr (by omega)) (by decide)
    omega
  · intro short
    refine (List.nodup_map_iff_inj_on List.nodup_range').mpr ?_
    intro k first l second same
    have first := List.mem_range'_1.mp first
    have second := List.mem_range'_1.mp second
    have values : k % 2 ^ 32 = l % 2 ^ 32 := congrArg UInt32.toNat same
    omega

/-- The document of a ledger that has grown from nothing is without fault, unless there are more markers than ids. -/
theorem inconsistency?_finalize {hash : String} {ledger : Ledger} {findings : List Finding}
    {decisions : List Decision} (grows : ({ sourceHash := hash } : Ledger).Grows findings decisions ledger)
    (references : ∀ d ∈ decisions, ∀ id ∈ d.references, id.IsAmong 0 findings.length) :
    ledger.finalize.inconsistency? = none ↔ ledger.markers.length ≤ 2 ^ 32 := by
  have markers : ledger.markers = numbered 0 findings := grows.markers
  have ids : ledger.markers.map Marker.id =
      (List.range' 1 ledger.markers.length).map Nat.toUInt32 := by
    rw [markers, map_id_numbered, length_numbered]
  have sorted : (ledger.finalize.markers.map Marker.id).Perm (ledger.markers.map Marker.id) :=
    (List.mergeSort_perm _ _).map _
  rw [Document.inconsistency?_eq_none_iff, sorted.nodup_iff, ids, nodup_ids_iff]
  refine and_iff_left ?_
  intro d member id reference
  have recorded : d ∈ decisions := by
    have decisions : ledger.decisions = decisions := grows.decisions
    rw [← decisions]
    exact List.mem_mergeSort.mp member
  obtain ⟨k, above, below, rfl⟩ := references d recorded id reference
  rw [sorted.mem_iff, ids]
  refine List.mem_map_of_mem (List.mem_range'_1.mpr ⟨above, ?_⟩)
  rw [markers, length_numbered]
  omega

/-- The document of a walk that fails nowhere is without fault, unless there are more markers than ids. -/
theorem inconsistency?_walk {root : SyntaxNode} {hash : String}
    (success : (walk policy root { sourceHash := hash }).failure = none) :
    (walk policy root { sourceHash := hash }).ledger.finalize.inconsistency? = none ↔
      (walk policy root { sourceHash := hash }).ledger.markers.length ≤ 2 ^ 32 :=
  inconsistency?_finalize (goesOn_walk success).grows (references_steps _ 0)

end Finder

end SourceCoverage
