import SourceCoverage.Proofs.Finder.Growth
import SourceCoverage.Proofs.Finder.Recorded

namespace SourceCoverage

/-- Every evaluation belongs to one decision, and the markers of a decision are numbered through from its own one. -/
structure Document.InBlocks (d : Document) : Prop where
  once : ∀ m ∈ d.markers, m.isCheckpoint = false → (d.decisions.flatMap Decision.references).count m.id = 1
  decisions : ∀ r ∈ d.decisions, ∀ id ∈ r.marker :: r.tree.operatorMarkers,
    ∃ sect, Marker.evaluation id sect .decision ∈ d.markers
  conditions : ∀ r ∈ d.decisions, ∀ id ∈ r.tree.conditions, ∃ sect, Marker.evaluation id sect .condition ∈ d.markers
  consecutive : ∀ r ∈ d.decisions,
    (r.references.map UInt32.toNat).Perm (List.range' r.marker.toNat r.references.length)
  increasing : ∀ r ∈ d.decisions, r.tree.conditions.Pairwise (· < ·) ∧ r.tree.operatorMarkers.Pairwise (· < ·)
  ordered : d.decisions.Pairwise fun r r' => r.marker < r'.marker

/-- The ids that a tree speaks of are these; both kinds of them keep their order. -/
structure ConditionTree.Fills (t : ConditionTree) (ids : List MarkerId) : Prop where
  conditions : t.conditions.Sublist ids
  operators : t.operatorMarkers.Sublist ids
  references : t.references.Perm ids

namespace ConditionTree.Fills

variable {left right : ConditionTree} {ids others : List MarkerId}

theorem condition (id : MarkerId) : (ConditionTree.condition id).Fills [id] :=
  ⟨List.Sublist.refl _, List.nil_sublist _, .refl _⟩

theorem not (fills : left.Fills ids) : left.not.Fills ids := by
  obtain ⟨conditions, operators, references⟩ := fills
  rw [ConditionTree.references, ← conditions_not] at references
  rw [← conditions_not] at conditions
  exact ⟨conditions, operators, references⟩

theorem join (first : left.Fills ids) (second : right.Fills others) (op : Connective) (marker : Option MarkerId) :
    (ConditionTree.join op left right marker).Fills (marker.toList ++ (ids ++ others)) := by
  refine ⟨?_, ?_, ?_⟩
  · rw [conditions_join]
    exact (first.conditions.append second.conditions).trans (List.sublist_append_right _ _)
  · rw [operatorMarkers, List.append_assoc]
    exact (first.operators.append second.operators).append_left _
  · refine List.perm_iff_count.mpr fun id => ?_
    have inLeft := first.references.count_eq id
    have inRight := second.references.count_eq id
    simp only [ConditionTree.references, conditions_join, operatorMarkers, List.count_append] at inLeft inRight ⊢
    omega

end ConditionTree.Fills

/-- The conditions of a depicted expression are conditions, and its operators decisions. -/
theorem ConditionTree.Depicts.references_entered {tree : ConditionTree} {expr : DecisionExpr} {markers : List Marker}
    (depicts : tree.Depicts markers expr) :
    (∀ id ∈ tree.conditions, ∃ sect, Marker.evaluation id sect .condition ∈ markers) ∧
      ∀ id ∈ tree.operatorMarkers, ∃ sect, Marker.evaluation id sect .decision ∈ markers := by
  induction depicts with
  | @condition node id entered =>
    refine ⟨fun id' member => ?_, fun id' absent => nomatch absent⟩
    rw [List.mem_singleton.mp member]
    exact ⟨node.sect, entered⟩
  | not _ ih =>
    rw [conditions_not]
    exact ih
  | @join op sect l r left right marker _ _ operator first second =>
    constructor
    · rw [conditions_join]
      exact List.forall_mem_append.mpr ⟨first.1, second.1⟩
    · rw [operatorMarkers]
      refine List.forall_mem_append.mpr ⟨List.forall_mem_append.mpr ⟨?_, first.2⟩, second.2⟩
      exact fun id member => ⟨sect, operator id (Option.mem_toList.mp member)⟩

namespace Finder

open MarkerId

variable {policy : DecisionPolicy}

/-- The markers of a tree are those of the ids that follow `count`. -/
theorem fills_treeOf (policy : DecisionPolicy) (isRoot : Bool) (count : Nat) (expr : DecisionExpr) :
    (treeOf policy isRoot count expr).Fills (after count (treeFindings policy isRoot expr).length) := by
  induction expr generalizing isRoot count with
  | leaf node => exact .condition _
  | not sect operand ih => exact (ih false count).not
  | join op sect left right leftIh rightIh =>
    rw [treeOf, length_treeFindings_join, after_add, after_add]
    split
    · exact (leftIh false _).join (rightIh false _) op (some _)
    · exact (leftIh false _).join (rightIh false _) op none

theorem references_perm (policy : DecisionPolicy) (count : Nat) (expr : DecisionExpr) :
    (decisionOf policy count expr).references.Perm (after count (decisionFindings policy expr []).length) := by
  rw [length_decisionFindings, after_add]
  exact (fills_treeOf policy true (count + 1) expr).references.cons _

/-- The markers of a decision are numbered through, beginning with its own. -/
theorem consecutive_decisionOf {count : Nat} {expr : DecisionExpr}
    (enough : count + (decisionFindings policy expr []).length < 2 ^ 32) :
    ((decisionOf policy count expr).references.map UInt32.toNat).Perm (List.range'
      (decisionOf policy count expr).marker.toNat (decisionOf policy count expr).references.length) := by
  have references := references_perm policy count expr
  have own : (decisionOf policy count expr).marker.toNat = count + 1 := by
    have length := length_decisionFindings policy expr
    exact Nat.mod_eq_of_lt (by omega)
  have length : (after count (decisionFindings policy expr []).length).length =
      (decisionFindings policy expr []).length := by
    simp [after]
  rw [own, references.length_eq, length, ← map_toNat_after enough]
  exact references.map _

theorem increasing_decisionOf {count : Nat} {expr : DecisionExpr}
    (enough : count + (decisionFindings policy expr []).length < 2 ^ 32) :
    (decisionOf policy count expr).tree.conditions.Pairwise (· < ·) ∧
      (decisionOf policy count expr).tree.operatorMarkers.Pairwise (· < ·) := by
  rw [length_decisionFindings] at enough
  have fills := fills_treeOf policy true (count + 1) expr
  have ids := pairwise_after (show count + 1 + (treeFindings policy true expr).length < 2 ^ 32 by omega)
  exact ⟨ids.sublist fills.conditions, ids.sublist fills.operators⟩

/-- The ids of the evaluations among findings that are numbered from the number after `count` on. -/
def evaluationIds (count : Nat) (findings : List Finding) : List MarkerId :=
  ((numbered count findings).filter (! ·.isCheckpoint)).map Marker.id

theorem evaluationIds_append (count : Nat) (findings others : List Finding) :
    evaluationIds count (findings ++ others) =
      evaluationIds count findings ++ evaluationIds (count + findings.length) others := by
  rw [evaluationIds, numbered_append, List.filter_append, List.map_append]
  rfl

theorem nodup_evaluationIds {findings : List Finding} (enough : findings.length < 2 ^ 32) :
    (evaluationIds 0 findings).Nodup := by
  have ids : ((numbered 0 findings).map Marker.id).Nodup := by
    rw [map_id_numbered]
    exact (pairwise_after (by omega)).imp UInt32.ne_of_lt
  exact ids.sublist (List.filter_sublist.map _)

/-- All findings of a decision are evaluations. -/
theorem evaluationIds_decision (count : Nat) (expr : DecisionExpr) :
    evaluationIds count (decisionFindings policy expr []) = after count (decisionFindings policy expr []).length := by
  have evaluations : ∀ f ∈ decisionFindings policy expr [], f.isCheckpoint = false := by
    have none : (decisionFindings policy expr []).countP Finding.isCheckpoint = 0 := by
      simp [decisionFindings, countP_treeFindings, Finding.isCheckpoint]
    simpa [List.countP_eq_zero] using none
  have all : (numbered count (decisionFindings policy expr [])).filter (! ·.isCheckpoint) =
      numbered count (decisionFindings policy expr []) := by
    rw [List.filter_eq_self]
    intro m member
    obtain ⟨⟨f, before⟩, found, rfl⟩ := List.mem_map.mp member
    have evaluation := evaluations f (List.fst_mem_of_mem_zipIdx found)
    cases f with
    | checkpoint sect braced => cases evaluation
    | evaluation sect kind => rfl
  rw [evaluationIds, all, map_id_numbered]
  rfl

mutual

theorem references_perm_step (step : Step) (count : Nat) :
    ((step.decisions policy count).flatMap Decision.references).Perm
      (evaluationIds count (step.findings policy)) := by
  match step with
  | .checkpoint sect braced => exact .nil
  | .decision expr inside =>
    rw [Step.decisions, Step.findings_decision, evaluationIds_append, evaluationIds_decision, List.flatMap_cons]
    exact (references_perm policy count expr).append (references_perm_steps inside _)
  | .visit steps =>
    rw [Step.decisions, Step.findings]
    exact references_perm_steps steps count

/-- The decisions of a walk refer to each of its evaluations once. -/
theorem references_perm_steps (steps : List Step) (count : Nat) :
    ((decisionsAll policy count steps).flatMap Decision.references).Perm
      (evaluationIds count (findingsAll policy steps)) := by
  match steps with
  | [] => exact .nil
  | step :: steps =>
    rw [decisionsAll, findingsAll, evaluationIds_append, List.flatMap_append]
    exact (references_perm_step step count).append (references_perm_steps steps _)

end

mutual

theorem markers_sublist_step (step : Step) (count : Nat) :
    ((step.decisions policy count).map Decision.marker).Sublist (after count (step.findings policy).length) := by
  match step with
  | .checkpoint sect braced => exact List.nil_sublist _
  | .decision expr inside =>
    have own : [(count + 1).toUInt32].Sublist (after count (decisionFindings policy expr []).length) := by
      rw [length_decisionFindings, after_add]
      exact List.sublist_append_left _ _
    rw [Step.decisions, Step.findings_decision, List.length_append, after_add]
    exact own.append (markers_sublist_steps inside _)
  | .visit steps =>
    rw [Step.decisions, Step.findings]
    exact markers_sublist_steps steps count

/-- The markers of decisions are numbered in the order of the walk. -/
theorem markers_sublist_steps (steps : List Step) (count : Nat) :
    ((decisionsAll policy count steps).map Decision.marker).Sublist
      (after count (findingsAll policy steps).length) := by
  match steps with
  | [] => exact List.nil_sublist _
  | step :: steps =>
    rw [decisionsAll, findingsAll, List.map_append, List.length_append, after_add]
    exact (markers_sublist_step step count).append (markers_sublist_steps steps _)

end

/-- The ids of what a walk has entered, whether or not it failed, are the numbers from one on. -/
theorem ids_of_grows {hash : String} {ledger : Ledger} {findings : List Finding} {decisions : List Decision}
    (grows : ({ sourceHash := hash } : Ledger).Grows findings decisions ledger) :
    (ledger.finalize.markers.map Marker.id).Perm (after 0 findings.length) := by
  have length : ledger.markers.length = findings.length := grows.length.trans (Nat.zero_add _)
  rw [← length, ← grows.agrees.ids]
  exact (List.mergeSort_perm _ _).map _

/-- The decisions of a walk that fails nowhere are in the order of their markers. -/
theorem pairwise_decisions {root : SyntaxNode} {hash : String}
    (success : (walk policy root { sourceHash := hash }).failure = none)
    (enough : (walk policy root { sourceHash := hash }).ledger.markers.length < 2 ^ 32) :
    (walk policy root { sourceHash := hash }).ledger.decisions.Pairwise fun r r' => r.marker < r'.marker := by
  have grows := (goesOn_walk success).grows
  rw [grows.length] at enough
  rw [grows.decisions, List.nil_append, ← List.pairwise_map]
  exact (pairwise_after enough).sublist (markers_sublist_steps _ 0)

theorem decisions_finalize {ledger : Ledger} (ordered : ledger.decisions.Pairwise fun r r' => r.marker < r'.marker) :
    ledger.finalize.decisions = ledger.decisions :=
  List.mergeSort_of_pairwise (ordered.imp fun less => decide_eq_true (UInt32.le_of_lt less))

/-- The document of a walk that fails nowhere, as long as there are ids for all its markers. -/
theorem inBlocks_of_success {root : SyntaxNode} {hash : String}
    (success : (walk policy root { sourceHash := hash }).failure = none)
    (enough : (walk policy root { sourceHash := hash }).ledger.markers.length < 2 ^ 32) :
    (walk policy root { sourceHash := hash }).ledger.finalize.InBlocks := by
  have grows := (goesOn_walk success).grows
  have depicts := depicts_walk success
  have ordered := pairwise_decisions success enough
  generalize (walk policy root { sourceHash := hash }).ledger = ledger at grows enough depicts ordered
  have markers : ledger.markers = numbered 0 (nodeFindings policy false .nested root) := grows.markers
  have decisions : ledger.decisions = decisionsAll policy 0 ((visits root).asNode false .nested) := grows.decisions
  have sorted := decisions_finalize ordered
  rw [markers, length_numbered] at enough
  have sortedMarkers : ledger.finalize.markers.Perm ledger.markers := List.mergeSort_perm _ _
  have block : ∀ r ∈ ledger.decisions, ∃ before expr, r = decisionOf policy before expr ∧
      before + (decisionFindings policy expr []).length < 2 ^ 32 := by
    intro r member
    rw [decisions] at member
    obtain ⟨before, expr, same, -, high⟩ := recorded_steps _ 0 r member
    exact ⟨before, expr, same, by rw [nodeFindings] at enough; omega⟩
  have depicted : ∀ r ∈ ledger.decisions, ∃ expr, r.Depicts ledger.markers expr :=
    ((List.forall₂_and_left _ _).mp (depicts.imp fun r expr depicts => ⟨⟨expr, depicts⟩, depicts⟩)).1
  have entered {m : Marker} (member : m ∈ ledger.markers) : m ∈ ledger.finalize.markers :=
    sortedMarkers.mem_iff.mpr member
  refine ⟨?_, ?_, ?_, ?_, ?_, ?_⟩
  · intro m member evaluation
    have nodup : (evaluationIds 0 (nodeFindings policy false .nested root)).Nodup := nodup_evaluationIds (by omega)
    rw [sorted, decisions, (references_perm_steps _ 0).count_eq]
    refine List.count_eq_one_of_mem nodup (List.mem_map_of_mem (List.mem_filter.mpr ⟨?_, by simp [evaluation]⟩))
    exact markers ▸ sortedMarkers.mem_iff.mp member
  · intro r member id reference
    rw [sorted] at member
    obtain ⟨expr, own, tree⟩ := depicted r member
    rcases List.mem_cons.mp reference with rfl | inner
    · exact ⟨expr.sect, entered own⟩
    · obtain ⟨sect, operator⟩ := tree.references_entered.2 id inner
      exact ⟨sect, entered operator⟩
  · intro r member id reference
    rw [sorted] at member
    obtain ⟨expr, -, tree⟩ := depicted r member
    obtain ⟨sect, condition⟩ := tree.references_entered.1 id reference
    exact ⟨sect, entered condition⟩
  · intro r member
    rw [sorted] at member
    obtain ⟨before, expr, rfl, high⟩ := block r member
    exact consecutive_decisionOf high
  · intro r member
    rw [sorted] at member
    obtain ⟨before, expr, rfl, high⟩ := block r member
    exact increasing_decisionOf high
  · rw [sorted]
    exact ordered

/-- However a walk over a tree of less than 2 ^ 31 nodes ends, its document is without fault and its markers are
numbered through from one. If it fails nowhere, the numbers of each decision form a block. -/
theorem inBlocks_walk (policy : DecisionPolicy) (root : SyntaxNode) (hash : String) (few : root.size < 2 ^ 31) :
    let walked := walk policy root { sourceHash := hash }
    let document := walked.ledger.finalize
    document.inconsistency? = none ∧
      (document.markers.map (·.id.toNat)).Perm (List.range' 1 document.markers.length) ∧
      (walked.failure = none → document.InBlocks ∧ walked.decisions = document.decisions.length) := by
  intro walked document
  obtain ⟨entered, records, grows, bound, references⟩ := grows_walk policy root hash
  have length : walked.ledger.markers.length = entered.length := grows.length.trans (Nat.zero_add _)
  have enough : 0 + entered.length < 2 ^ 32 := by omega
  refine ⟨(inconsistency?_finalize grows references).mpr (length ▸ by omega), ?_, fun success => ⟨?_, ?_⟩⟩
  · have ids := (ids_of_grows grows).map UInt32.toNat
    rw [map_toNat_after enough, List.map_map] at ids
    have sorted : document.markers.length = entered.length := (List.mergeSort_perm _ _).length_eq.trans length
    rw [sorted]
    exact ids
  · exact inBlocks_of_success success (length ▸ by omega)
  · have recorded : document.decisions.length = walked.ledger.decisions.length := (List.mergeSort_perm _ _).length_eq
    have goesOn := goesOn_walk success
    rw [recorded, goesOn.decisions, goesOn.grows.decisions]
    exact Nat.zero_add _

/-- A function that returns a value by a condition in which another decision is nested. -/
def nestedChoice : SyntaxNode :=
  .node (.function false) .none ⟨⟨1, 1⟩, ⟨1, 30⟩⟩ [.node .compound .body ⟨⟨1, 2⟩, ⟨1, 30⟩⟩ [
    .node (.statement .returns) .none ⟨⟨1, 3⟩, ⟨1, 29⟩⟩ [
      .node (.expression (.conditional false)) .none ⟨⟨1, 10⟩, ⟨1, 28⟩⟩ [
        .node (.expression .and) .condition ⟨⟨1, 10⟩, ⟨1, 24⟩⟩ [
          .node (.expression .other) .left ⟨⟨1, 10⟩, ⟨1, 11⟩⟩ [],
          .node (.expression .parenthesized) .right ⟨⟨1, 13⟩, ⟨1, 24⟩⟩ [
            .node (.expression .or) .none ⟨⟨1, 14⟩, ⟨1, 23⟩⟩ [
              .node (.expression .other) .left ⟨⟨1, 14⟩, ⟨1, 19⟩⟩ [
                .node (.expression .not) .none ⟨⟨1, 16⟩, ⟨1, 18⟩⟩ [
                  .node (.expression .other) .operand ⟨⟨1, 17⟩, ⟨1, 18⟩⟩ []]],
              .node (.expression .other) .right ⟨⟨1, 21⟩, ⟨1, 22⟩⟩ []]]],
        .node (.expression .other) .consequence ⟨⟨1, 25⟩, ⟨1, 26⟩⟩ [],
        .node (.expression .other) .alternative ⟨⟨1, 27⟩, ⟨1, 28⟩⟩ []]]]]

theorem inBlocks_nestedChoice :
    nestedChoice.size < 2 ^ 31 ∧ (walk .allNodes nestedChoice { sourceHash := "" }).failure = none ∧
      (walk .allNodes nestedChoice { sourceHash := "" }).ledger.finalize.InBlocks ∧
      (walk .allNodes nestedChoice { sourceHash := "" }).ledger.finalize.decisions.length = 2 := by
  have few : nestedChoice.size < 2 ^ 31 := by decide
  have success : (walk .allNodes nestedChoice { sourceHash := "" }).failure = none := by decide
  have two : (walk .allNodes nestedChoice { sourceHash := "" }).decisions = 2 := by decide
  obtain ⟨blocks, length⟩ := (inBlocks_walk .allNodes nestedChoice "" few).2.2 success
  exact ⟨few, success, blocks, length ▸ two⟩

end Finder

end SourceCoverage
