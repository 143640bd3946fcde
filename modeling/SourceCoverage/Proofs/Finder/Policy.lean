import SourceCoverage.Proofs.Finder.Blocks
import SourceCoverage.Proofs.Marker

namespace SourceCoverage

/-- A tree with other ids and without the markers of operators. -/
def ConditionTree.unprobed (renumber : MarkerId → MarkerId) : ConditionTree → ConditionTree
  | condition id => condition (renumber id)
  | not operand => not (operand.unprobed renumber)
  | join op left right _ => join op (left.unprobed renumber) (right.unprobed renumber) none

def Decision.unprobed (renumber : MarkerId → MarkerId) (d : Decision) : Decision :=
  ⟨renumber d.marker, d.tree.unprobed renumber⟩

def Marker.renumbered (renumber : MarkerId → MarkerId) (m : Marker) : Marker := { m with id := renumber m.id }

namespace Document

/-- The markers that are not those of operators inside decisions. -/
def withoutOperators (d : Document) : List Marker :=
  d.markers.filter fun m => ! (d.decisions.flatMap (·.tree.operatorMarkers)).contains m.id

/-- The document without the markers of operators, the others having new ids. -/
def unprobed (renumber : MarkerId → MarkerId) (d : Document) : Document :=
  { d with
    markers := d.withoutOperators.map (Marker.renumbered renumber)
    decisions := d.decisions.map (Decision.unprobed renumber) }

/-- New ids for all markers but those of operators: in the same order, and the numbers from one on. -/
structure Renumbers (d : Document) (renumber : MarkerId → MarkerId) : Prop where
  increasing : ∀ m ∈ d.withoutOperators, ∀ n ∈ d.withoutOperators, m.id < n.id → renumber m.id < renumber n.id
  numbers : (d.withoutOperators.map fun m => (renumber m.id).toNat).Perm (List.range' 1 d.withoutOperators.length)

end Document

namespace Finder

open MarkerId

/-- The elements of a list where the choice is to keep them. -/
def sift {α : Type} : List Bool → List α → List α
  | true :: choices, a :: rest => a :: sift choices rest
  | false :: choices, _ :: rest => sift choices rest
  | _, _ => []

section Sift

variable {α β : Type}

theorem sift_append {choices more : List Bool} {l l' : List α} (length : choices.length = l.length) :
    sift (choices ++ more) (l ++ l') = sift choices l ++ sift more l' := by
  induction choices generalizing l with
  | nil =>
    obtain rfl := List.length_eq_zero_iff.mp length.symm
    rfl
  | cons keep choices ih =>
    cases l with
    | nil => cases length
    | cons a l =>
      have rest := ih (Nat.succ.inj length)
      cases keep with
      | true => exact congrArg (a :: ·) rest
      | false => exact rest

theorem sift_sublist (choices : List Bool) (l : List α) : (sift choices l).Sublist l := by
  induction choices generalizing l with
  | nil => exact List.nil_sublist _
  | cons keep choices ih =>
    cases l with
    | nil => cases keep <;> exact List.nil_sublist _
    | cons a l =>
      cases keep with
      | true => exact (ih l).cons_cons a
      | false => exact (ih l).cons a

theorem length_sift {choices : List Bool} {l : List α} (length : choices.length = l.length) :
    (sift choices l).length = choices.count true := by
  induction choices generalizing l with
  | nil => rfl
  | cons keep choices ih =>
    cases l with
    | nil => cases length
    | cons a l =>
      have rest := ih (Nat.succ.inj length)
      cases keep with
      | true => simpa [sift] using rest
      | false => simpa [sift] using rest

/-- To keep what is chosen is to drop what is not, as long as elements can be told apart. -/
theorem filter_not_mem_sift [DecidableEq β] {choices : List Bool} {l : List α} (key : α → β)
    (length : choices.length = l.length) (nodup : (l.map key).Nodup) :
    l.filter (fun a => ! (sift (choices.map not) (l.map key)).contains (key a)) = sift choices l := by
  induction choices generalizing l with
  | nil =>
    obtain rfl := List.length_eq_zero_iff.mp length.symm
    rfl
  | cons keep choices ih =>
    cases l with
    | nil => cases length
    | cons a l =>
      obtain ⟨fresh, nodup⟩ := List.nodup_cons.mp nodup
      have rest := ih (Nat.succ.inj length) nodup
      cases keep with
      | true =>
        have absent : key a ∉ sift (choices.map not) (l.map key) := fun member =>
          fresh ((sift_sublist _ _).subset member)
        simpa [sift, absent] using rest
      | false =>
        have other : ∀ b ∈ l, key b ≠ key a := fun b member same => fresh (same ▸ List.mem_map_of_mem member)
        show _ = sift choices l
        rw [← rest, List.filter_cons_of_neg (by simp [sift])]
        refine List.filter_congr ?_
        intro b member
        simp [sift, other b member]

end Sift

/-- Which findings of an expression with all its operators stay if operators are not probed. -/
def treeChoices (isRoot : Bool) : DecisionExpr → List Bool
  | .leaf _ => [true]
  | .not _ operand => treeChoices false operand
  | .join _ _ left right => (if !isRoot then [false] else []) ++ (treeChoices false left ++ treeChoices false right)

mutual

def Step.choices : Step → List Bool
  | .checkpoint _ _ => [true]
  | .decision expr inside => (true :: treeChoices true expr) ++ choicesAll inside
  | .visit steps => choicesAll steps

def choicesAll : List Step → List Bool
  | [] => []
  | step :: steps => step.choices ++ choicesAll steps

end

/-- The second findings are those of the first that are chosen, with all the checkpoints among them. -/
structure Sifts (choices : List Bool) (all some : List Finding) : Prop where
  length : choices.length = all.length
  eq : some = sift choices all
  checkpoints : some.countP Finding.isCheckpoint = all.countP Finding.isCheckpoint

theorem Sifts.append {choices more : List Bool} {all some others fewer : List Finding}
    (first : Sifts choices all some) (second : Sifts more others fewer) :
    Sifts (choices ++ more) (all ++ others) (some ++ fewer) := by
  refine ⟨by rw [List.length_append, List.length_append, first.length, second.length], ?_, ?_⟩
  · rw [sift_append first.length, first.eq, second.eq]
  · rw [List.countP_append, List.countP_append, first.checkpoints, second.checkpoints]

theorem sifts_tree (isRoot : Bool) (expr : DecisionExpr) :
    Sifts (treeChoices isRoot expr) (treeFindings .allNodes isRoot expr) (treeFindings .leaves isRoot expr) := by
  induction expr generalizing isRoot with
  | leaf node => exact ⟨rfl, rfl, rfl⟩
  | not sect operand ih => exact ih false
  | join op sect left right leftIh rightIh =>
    refine Sifts.append ?_ ((leftIh false).append (rightIh false))
    cases isRoot <;> exact ⟨rfl, rfl, rfl⟩

theorem sifts_decision (expr : DecisionExpr) :
    Sifts (true :: treeChoices true expr) (decisionFindings .allNodes expr [])
      (decisionFindings .leaves expr []) := by
  have tree := sifts_tree true expr
  simp only [decisionFindings, List.append_nil]
  exact ⟨congrArg Nat.succ tree.length, congrArg (_ :: ·) tree.eq, tree.checkpoints⟩

mutual

theorem sifts_step (step : Step) : Sifts step.choices (step.findings .allNodes) (step.findings .leaves) := by
  match step with
  | .checkpoint sect braced => exact ⟨rfl, rfl, rfl⟩
  | .decision expr inside =>
    rw [Step.findings_decision, Step.findings_decision]
    exact (sifts_decision expr).append (sifts_steps inside)
  | .visit steps =>
    rw [Step.findings, Step.findings]
    exact sifts_steps steps

/-- What is found without operators is a part of what is found with them. -/
theorem sifts_steps (steps : List Step) :
    Sifts (choicesAll steps) (findingsAll .allNodes steps) (findingsAll .leaves steps) := by
  match steps with
  | [] => exact ⟨rfl, rfl, rfl⟩
  | step :: steps => exact (sifts_step step).append (sifts_steps steps)

end

/-- New ids for what is chosen: numbers after `count` become numbers after `fewer`. -/
def Matches (renumber : MarkerId → MarkerId) : (count fewer : Nat) → List Bool → Prop
  | _, _, [] => True
  | count, fewer, true :: choices =>
    renumber (count + 1).toUInt32 = (fewer + 1).toUInt32 ∧ Matches renumber (count + 1) (fewer + 1) choices
  | count, fewer, false :: choices => Matches renumber (count + 1) fewer choices

section Matches

variable {renumber : MarkerId → MarkerId} {count fewer : Nat} {choices more : List Bool}

theorem matches_append : Matches renumber count fewer (choices ++ more) ↔ Matches renumber count fewer choices ∧
    Matches renumber (count + choices.length) (fewer + choices.count true) more := by
  induction choices generalizing count fewer with
  | nil => simp [Matches]
  | cons keep choices ih =>
    cases keep with
    | true => simp [Matches, ih, and_assoc, Nat.add_assoc, Nat.add_comm 1]
    | false => simp [Matches, ih, Nat.add_assoc, Nat.add_comm 1]

/-- To count what is chosen is to give such ids. -/
theorem matches_count {before choices : List Bool} (enough : before.length + choices.length < 2 ^ 32) :
    Matches (fun id => (((before ++ choices).take id.toNat).count true).toUInt32) before.length (before.count true)
      choices := by
  induction choices generalizing before with
  | nil => trivial
  | cons keep choices ih =>
    have rest := @ih (before ++ [keep]) (by simp at enough ⊢; omega)
    have number : (before.length + 1).toUInt32.toNat = before.length + 1 :=
      Nat.mod_eq_of_lt (by simp at enough; omega)
    rw [List.append_assoc, List.length_append, List.count_append] at rest
    cases keep with
    | true =>
      have taken : (before ++ true :: choices).take (before.length + 1) = before ++ [true] := by
        simp [List.take_append]
      refine ⟨?_, rest⟩
      dsimp only
      rw [number, taken, List.count_append]
      rfl
    | false => exact rest

theorem renumbered_marker (f : Finding) (id : MarkerId) :
    (f.marker id).renumbered renumber = f.marker (renumber id) := by
  cases f <;> rfl

/-- The markers of what is chosen, with their new ids. -/
theorem numbered_sift {findings : List Finding} (length : choices.length = findings.length)
    (same : Matches renumber count fewer choices) :
    numbered fewer (sift choices findings) =
      (sift choices (numbered count findings)).map (Marker.renumbered renumber) := by
  induction choices generalizing count fewer findings with
  | nil => rfl
  | cons keep choices ih =>
    cases findings with
    | nil => cases length
    | cons f findings =>
      rw [numbered_cons]
      cases keep with
      | true =>
        obtain ⟨own, same⟩ := same
        rw [sift, numbered_cons, sift, List.map_cons, renumbered_marker, own, ih (Nat.succ.inj length) same]
      | false => exact ih (Nat.succ.inj length) same

theorem length_leaves_tree (isRoot : Bool) (expr : DecisionExpr) :
    (treeFindings .leaves isRoot expr).length = (treeChoices isRoot expr).count true := by
  obtain ⟨length, eq, -⟩ := sifts_tree isRoot expr
  rw [eq, length_sift length]

theorem unprobed_treeOf {isRoot : Bool} {expr : DecisionExpr}
    (same : Matches renumber count fewer (treeChoices isRoot expr)) :
    treeOf .leaves isRoot fewer expr = (treeOf .allNodes isRoot count expr).unprobed renumber := by
  induction expr generalizing isRoot count fewer with
  | leaf node => exact congrArg ConditionTree.condition same.1.symm
  | not sect operand ih => exact congrArg ConditionTree.not (ih same)
  | join op sect left right leftIh rightIh =>
    have length := (sifts_tree false left).length
    rw [treeChoices, matches_append, matches_append, length, ← length_leaves_tree] at same
    obtain ⟨-, inLeft, inRight⟩ := same
    -- the operator has a marker only where operators are probed and it is not the root
    cases isRoot with
    | true => exact congrArg₂ (ConditionTree.join op · · none) (leftIh inLeft) (rightIh inRight)
    | false => exact congrArg₂ (ConditionTree.join op · · none) (leftIh inLeft) (rightIh inRight)

theorem unprobed_decisionOf {expr : DecisionExpr}
    (same : Matches renumber count fewer (true :: treeChoices true expr)) :
    decisionOf .leaves fewer expr = (decisionOf .allNodes count expr).unprobed renumber := by
  obtain ⟨own, tree⟩ := same
  exact congrArg₂ Decision.mk own.symm (unprobed_treeOf tree)

mutual

theorem unprobed_step (step : Step) {count fewer : Nat} (same : Matches renumber count fewer step.choices) :
    step.decisions .leaves fewer = (step.decisions .allNodes count).map (Decision.unprobed renumber) := by
  match step with
  | .checkpoint sect braced => rfl
  | .decision expr inside =>
    obtain ⟨length, eq, -⟩ := sifts_decision expr
    rw [Step.choices, matches_append, length, ← length_sift length, ← eq] at same
    rw [Step.decisions, Step.decisions, List.map_cons, unprobed_decisionOf same.1, unprobed_steps inside same.2]
  | .visit steps => exact unprobed_steps steps same

/-- The decisions are the same but for ids and markers of operators. -/
theorem unprobed_steps (steps : List Step) {count fewer : Nat}
    (same : Matches renumber count fewer (choicesAll steps)) :
    decisionsAll .leaves fewer steps = (decisionsAll .allNodes count steps).map (Decision.unprobed renumber) := by
  match steps with
  | [] => rfl
  | step :: steps =>
    obtain ⟨length, eq, -⟩ := sifts_step step
    rw [choicesAll, matches_append, length, ← length_sift length, ← eq] at same
    rw [decisionsAll, decisionsAll, List.map_append, unprobed_step step same.1, unprobed_steps steps same.2]

end

end Matches

theorem length_after (count length : Nat) : (after count length).length = length := by simp [after]

theorem sift_after_append {choices more : List Bool} {findings others : List Finding} (count : Nat)
    (length : choices.length = findings.length) :
    sift ((choices ++ more).map not) (after count (findings ++ others).length) =
      sift (choices.map not) (after count findings.length) ++
        sift (more.map not) (after (count + findings.length) others.length) := by
  rw [List.map_append, List.length_append, after_add, sift_append]
  rw [List.length_map, length_after, length]

theorem operatorMarkers_treeOf (isRoot : Bool) (count : Nat) (expr : DecisionExpr) :
    (treeOf .allNodes isRoot count expr).operatorMarkers =
      sift ((treeChoices isRoot expr).map not) (after count (treeFindings .allNodes isRoot expr).length) := by
  induction expr generalizing isRoot count with
  | leaf node => rfl
  | not sect operand ih => exact ih false count
  | join op sect left right leftIh rightIh =>
    rw [treeChoices, treeFindings, sift_after_append, sift_after_append _ (sifts_tree false left).length, ← leftIh,
      ← rightIh]
    · cases isRoot <;> simp [treeOf, ConditionTree.operatorMarkers, sift, after]
    · cases isRoot <;> rfl

mutual

theorem operatorMarkers_step (step : Step) (count : Nat) :
    (step.decisions .allNodes count).flatMap (·.tree.operatorMarkers) =
      sift (step.choices.map not) (after count (step.findings .allNodes).length) := by
  match step with
  | .checkpoint sect braced => rfl
  | .decision expr inside =>
    have own : (decisionOf .allNodes count expr).tree.operatorMarkers =
        sift ((true :: treeChoices true expr).map not) (after count (decisionFindings .allNodes expr []).length) := by
      rw [length_decisionFindings, after_add]
      exact operatorMarkers_treeOf true (count + 1) expr
    rw [Step.decisions, Step.choices, Step.findings_decision, sift_after_append count (sifts_decision expr).length,
      List.flatMap_cons, own, operatorMarkers_steps inside]
  | .visit steps =>
    rw [Step.findings]
    exact operatorMarkers_steps steps count

/-- The markers of operators are those that are not chosen. -/
theorem operatorMarkers_steps (steps : List Step) (count : Nat) :
    (decisionsAll .allNodes count steps).flatMap (·.tree.operatorMarkers) =
      sift ((choicesAll steps).map not) (after count (findingsAll .allNodes steps).length) := by
  match steps with
  | [] => rfl
  | step :: steps =>
    rw [decisionsAll, choicesAll, findingsAll, sift_after_append count (sifts_step step).length, List.flatMap_append,
      operatorMarkers_step step, operatorMarkers_steps steps]

end

section Documents

variable {renumber : MarkerId → MarkerId} {choices : List Bool} {findings : List Finding}

/-- New ids that match a choice are given in the order of the old ones. -/
theorem increasing_of_matches (length : choices.length = findings.length) (enough : findings.length < 2 ^ 32)
    (same : Matches renumber 0 0 choices) : ∀ m ∈ sift choices (numbered 0 findings),
      ∀ n ∈ sift choices (numbered 0 findings), m.id < n.id → renumber m.id < renumber n.id := by
  have old : (sift choices (numbered 0 findings)).Pairwise fun m n => m.id < n.id := by
    refine List.Pairwise.sublist (sift_sublist _ _) ?_
    rw [← List.pairwise_map, map_id_numbered]
    exact pairwise_after (by omega)
  have new : (sift choices (numbered 0 findings)).Pairwise fun m n => renumber m.id < renumber n.id := by
    have few := (sift_sublist choices findings).length_le
    have ids : ((numbered 0 (sift choices findings)).map Marker.id).Pairwise (· < ·) := by
      rw [map_id_numbered]
      exact pairwise_after (by omega)
    rw [numbered_sift length same, List.map_map, List.pairwise_map] at ids
    exact ids
  intro m atM n atN
  refine List.Pairwise.forall_of_forall_of_flip (R := fun m n => m.id < n.id → renumber m.id < renumber n.id) ?_ ?_
    ?_ atM atN
  · exact fun _ _ less => absurd less (UInt32.lt_irrefl _)
  · refine new.imp ?_
    exact fun less _ => less
  · exact old.imp fun less wrong => absurd wrong (UInt32.lt_asymm less)

theorem order_renumbered {m n : Marker} (increasing : m.id < n.id → renumber m.id < renumber n.id)
    (increasing' : n.id < m.id → renumber n.id < renumber m.id) :
    (m.renumbered renumber).order (n.renumbered renumber) = m.order n := by
  have ids : compare (renumber m.id) (renumber n.id) = compare m.id n.id := by
    rcases Nat.lt_trichotomy m.id.toNat n.id.toNat with less | equal | greater
    · have less := UInt32.lt_iff_toNat_lt.mpr less
      rw [Std.compare_eq_lt.mpr less, Std.compare_eq_lt.mpr (increasing less)]
    · rw [UInt32.toNat_inj.mp equal]
      exact (Std.LawfulEqOrd.compare_eq_iff_eq.mpr rfl).trans (Std.LawfulEqOrd.compare_eq_iff_eq.mpr rfl).symm
    · have greater := UInt32.lt_iff_toNat_lt.mpr greater
      rw [Std.compare_eq_gt.mpr greater, Std.compare_eq_gt.mpr (increasing' greater)]
  unfold Marker.order
  rw [← ids]
  rfl

/-- The markers without those of operators, in document order, and what they become. -/
theorem finalize_sift {ledger fewer : Ledger} (length : choices.length = findings.length)
    (enough : findings.length < 2 ^ 32) (same : Matches renumber 0 0 choices)
    (regular : ∀ m ∈ ledger.markers, m.Regular) (markers : ledger.markers = numbered 0 findings)
    (markers' : fewer.markers = numbered 0 (sift choices findings))
    (operators : ledger.finalize.decisions.flatMap (·.tree.operatorMarkers) =
      sift (choices.map not) (after 0 findings.length)) :
    ledger.finalize.withoutOperators.Perm (sift choices (numbered 0 findings)) ∧
      fewer.finalize.markers = ledger.finalize.withoutOperators.map (Marker.renumbered renumber) := by
  have ids : ledger.markers.map Marker.id = after 0 findings.length := by
    rw [markers, map_id_numbered]
    rfl
  have nodup : (ledger.markers.map Marker.id).Nodup := by
    rw [ids]
    exact (pairwise_after (by omega)).imp UInt32.ne_of_lt
  have chosen : ledger.markers.filter
      (fun m => ! (sift (choices.map not) (ledger.markers.map Marker.id)).contains m.id) =
      sift choices ledger.markers :=
    filter_not_mem_sift Marker.id (by rw [length, markers, length_numbered]) nodup
  have kept : ledger.finalize.withoutOperators = (ledger.markers.mergeSort fun m n => (m.order n).isLE).filter
      (fun m => ! (sift (choices.map not) (ledger.markers.map Marker.id)).contains m.id) := by
    rw [ids, ← operators]
    rfl
  have perm : ledger.finalize.withoutOperators.Perm (sift choices ledger.markers) := by
    rw [kept, ← chosen]
    exact (List.mergeSort_perm _ _).filter _
  refine ⟨markers ▸ perm, ?_⟩
  have part := sift_sublist choices ledger.markers
  -- what is kept of a sorted list is sorted, and there is only one sorted form
  have sorted : ledger.finalize.withoutOperators =
      (sift choices ledger.markers).mergeSort fun m n => (m.order n).isLE := by
    refine Marker.eq_mergeSort_order (fun m member => regular m (part.subset member))
      (nodup.sublist (part.map _)) perm ?_
    rw [kept]
    exact (Marker.pairwise_mergeSort_order regular).filter _
  have increasing := increasing_of_matches length enough same
  rw [← markers] at increasing
  rw [sorted, List.map_mergeSort (s := fun m n => (m.order n).isLE), markers, ← numbered_sift length same, ← markers']
  · rfl
  · intro m atM n atN
    rw [order_renumbered (increasing m atM n atN) (increasing n atN m atM)]

theorem renumbers_of_matches {d : Document} (length : choices.length = findings.length)
    (enough : findings.length < 2 ^ 32) (same : Matches renumber 0 0 choices)
    (perm : d.withoutOperators.Perm (sift choices (numbered 0 findings))) : d.Renumbers renumber := by
  refine ⟨?_, ?_⟩
  · intro m atM n atN
    exact increasing_of_matches length enough same m (perm.mem_iff.mp atM) n (perm.mem_iff.mp atN)
  · have number : (sift choices findings).length = d.withoutOperators.length := by
      rw [perm.length_eq, length_sift length, length_sift (by rw [length, length_numbered])]
    have few := (sift_sublist choices findings).length_le
    have ids : (sift choices (numbered 0 findings)).map (renumber ∘ Marker.id) =
        after 0 d.withoutOperators.length := by
      have new := congrArg (List.map Marker.id) (numbered_sift length same)
      rw [map_id_numbered, List.map_map, number] at new
      exact new.symm
    have numbers := (perm.map (renumber ∘ Marker.id)).map UInt32.toNat
    rw [ids, map_toNat_after (by omega), List.map_map] at numbers
    exact numbers

end Documents

/-- If a walk that probes operators fails nowhere, then neither does one that does not. It counts the same checkpoints
and decisions, and its document is the one of the first walk without the markers of operators, numbered through. -/
theorem walk_leaves (root : SyntaxNode) (hash : String) (few : root.size < 2 ^ 31)
    (success : (walk .allNodes root { sourceHash := hash }).failure = none) :
    let all := walk .allNodes root { sourceHash := hash }
    let leaves := walk .leaves root { sourceHash := hash }
    leaves.failure = none ∧ leaves.checkpoints = all.checkpoints ∧ leaves.decisions = all.decisions ∧
      ∃ renumber, all.ledger.finalize.Renumbers renumber ∧
        leaves.ledger.finalize = all.ledger.finalize.unprobed renumber := by
  intro all leaves
  obtain ⟨length, eq, checkpoints⟩ := sifts_steps ((visits root).asNode false .nested)
  have distinct : Distinct (nodeFindings .leaves false .nested root) := by
    rw [nodeFindings, eq]
    exact (distinct_of_walk success).sublist (sift_sublist _ _)
  have success' : leaves.failure = none := (records_of_distinct distinct hash).1
  have goesOn := goesOn_walk success
  have goesOn' := goesOn_walk success'
  have sorted : all.ledger.finalize.decisions = decisionsAll .allNodes 0 ((visits root).asNode false .nested) :=
    (decisions_finalize (pairwise_decisions success (length_markers_walk few _ _))).trans goesOn.grows.decisions
  have sorted' : leaves.ledger.finalize.decisions = decisionsAll .leaves 0 ((visits root).asNode false .nested) :=
    (decisions_finalize (pairwise_decisions success' (length_markers_walk few _ _))).trans goesOn'.grows.decisions
  have enough : 0 + (findingsAll .allNodes ((visits root).asNode false .nested)).length < 2 ^ 32 := by
    have number := goesOn.grows.length
    exact number ▸ length_markers_walk few _ _
  rw [Nat.zero_add] at enough
  obtain ⟨renumber, same⟩ : ∃ renumber, Matches renumber 0 0 (choicesAll ((visits root).asNode false .nested)) :=
    ⟨_, @matches_count [] _ (by rwa [length, List.length_nil, Nat.zero_add])⟩
  obtain ⟨perm, markers⟩ := finalize_sift length enough same goesOn.grows.agrees.regular
    goesOn.grows.markers (goesOn'.grows.markers.trans (congrArg (numbered 0) eq)) (sorted ▸ operatorMarkers_steps _ 0)
  refine ⟨success', ?_, ?_, renumber, renumbers_of_matches length enough same perm, ?_⟩
  · rw [goesOn'.checkpoints, goesOn.checkpoints]
    exact congrArg (0 + ·) checkpoints
  · rw [goesOn'.decisions, goesOn.decisions, unprobed_steps _ same, List.length_map]
  · have hash : leaves.ledger.sourceHash = all.ledger.sourceHash := goesOn'.grows.hash.trans goesOn.grows.hash.symm
    calc leaves.ledger.finalize = { all.ledger.finalize with
        sourceHash := leaves.ledger.sourceHash
        markers := leaves.ledger.finalize.markers
        decisions := leaves.ledger.finalize.decisions } := rfl
      _ = all.ledger.finalize.unprobed renumber := by
        rw [hash, markers, sorted', unprobed_steps _ same, ← sorted]
        rfl

theorem walk_leaves_nestedChoice :
    nestedChoice.size < 2 ^ 31 ∧ (walk .allNodes nestedChoice { sourceHash := "" }).failure = none ∧
      (walk .leaves nestedChoice { sourceHash := "" }).decisions = 2 ∧
      (walk .leaves nestedChoice { sourceHash := "" }).ledger.markers.length <
        (walk .allNodes nestedChoice { sourceHash := "" }).ledger.markers.length ∧
      ∃ renumber, (walk .allNodes nestedChoice { sourceHash := "" }).ledger.finalize.Renumbers renumber ∧
        (walk .leaves nestedChoice { sourceHash := "" }).ledger.finalize =
          (walk .allNodes nestedChoice { sourceHash := "" }).ledger.finalize.unprobed renumber := by
  have few : nestedChoice.size < 2 ^ 31 := by decide
  have success : (walk .allNodes nestedChoice { sourceHash := "" }).failure = none := by decide
  have two : (walk .allNodes nestedChoice { sourceHash := "" }).decisions = 2 := by decide
  obtain ⟨-, -, decisions, document⟩ := walk_leaves nestedChoice "" few success
  exact ⟨few, success, decisions.trans two, by decide, document⟩

end Finder

end SourceCoverage
