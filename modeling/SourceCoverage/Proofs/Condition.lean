import Mathlib.Data.List.Nodup
import Mathlib.Logic.Function.Basic
import Mathlib.Order.BooleanAlgebra.Basic
import SourceCoverage.Condition

namespace SourceCoverage

/-- The value of the left operand that leaves the right one out. -/
def Connective.settling : Connective → Bool
  | and => false
  | or => true

namespace Polarity

/-- The outcome moves with a condition that is turned on, or against it. -/
def Moves : Polarity → (before after : Bool) → Prop
  | direct, before, after => before ≤ after
  | inverted, before, after => after ≤ before

theorem Moves.not {p : Polarity} {before after : Bool} (moves : p.flip.Moves before after) :
    p.Moves (!before) (!after) := by
  cases p <;> exact compl_le_compl moves

theorem Moves.and {p : Polarity} {before after before' after' : Bool} (first : p.Moves before after)
    (second : p.Moves before' after') : p.Moves (before && before') (after && after') := by
  cases p <;> exact inf_le_inf first second

theorem Moves.or {p : Polarity} {before after before' after' : Bool} (first : p.Moves before after)
    (second : p.Moves before' after') : p.Moves (before || before') (after || after') := by
  cases p <;> exact sup_le_sup first second

theorem Moves.refl (p : Polarity) (outcome : Bool) : p.Moves outcome outcome := by cases p <;> exact le_refl outcome

end Polarity

namespace ConditionTree

variable {t left right : ConditionTree} {f g : MarkerId → Bool} {id : MarkerId} {p : Polarity}

theorem map_fst_polaritiesUnder (t : ConditionTree) (polarity : Polarity) :
    (t.polaritiesUnder polarity).map Prod.fst = t.conditions := by
  rw [conditions, polarities]
  generalize Polarity.direct = polarity'
  induction t generalizing polarity polarity' with
  | condition id => rfl
  | not operand ih => exact ih polarity.flip polarity'.flip
  | join op left right marker leftIh rightIh =>
    simp only [polaritiesUnder, List.map_append]
    rw [leftIh polarity polarity', rightIh polarity polarity']

theorem conditions_not (operand : ConditionTree) : (ConditionTree.not operand).conditions = operand.conditions :=
  operand.map_fst_polaritiesUnder .inverted

theorem conditions_join (op : Connective) (left right : ConditionTree) (marker : Option MarkerId) :
    (join op left right marker).conditions = left.conditions ++ right.conditions :=
  List.map_append

theorem mem_conditions_of_polarities (member : (id, p) ∈ t.polarities) : id ∈ t.conditions :=
  List.mem_map.mpr ⟨_, member, rfl⟩

theorem run_join (f : MarkerId → Bool) (op : Connective) (left right : ConditionTree) (marker : Option MarkerId) :
    (join op left right marker).run f =
      if (left.run f).outcome = op.settling then left.run f
      else ⟨(right.run f).outcome, (left.run f).evaluated ++ (right.run f).evaluated⟩ := by
  cases op <;> cases outcome : (left.run f).outcome <;> simp [run, outcome, Connective.settling]

theorem value_join (f : MarkerId → Bool) (op : Connective) (left right : ConditionTree) (marker : Option MarkerId) :
    (join op left right marker).value f = if left.value f = op.settling then left.value f else right.value f := by
  cases op <;> cases outcome : left.value f <;> simp [value, outcome, Connective.settling]

theorem outcome_run (t : ConditionTree) (f : MarkerId → Bool) : (t.run f).outcome = t.value f := by
  induction t with
  | condition id => rfl
  | not operand ih => exact congrArg (! ·) ih
  | join op left right marker leftIh rightIh =>
    rw [run_join, value_join, ← leftIh, ← rightIh]
    split <;> rfl

theorem evaluated_run_ne_nil (t : ConditionTree) (f : MarkerId → Bool) : (t.run f).evaluated ≠ [] := by
  induction t with
  | condition id => exact List.cons_ne_nil _ _
  | not operand ih => exact ih
  | join op left right marker leftIh _ =>
    rw [run_join]
    split
    · exact leftIh
    · exact List.append_ne_nil_of_left_ne_nil leftIh _

theorem evaluated_run_sublist (t : ConditionTree) (f : MarkerId → Bool) :
    (t.run f).evaluated.Sublist t.conditions := by
  induction t with
  | condition id => exact List.Sublist.refl _
  | not operand ih =>
    rw [conditions_not]
    exact ih
  | join op left right marker leftIh rightIh =>
    rw [run_join, conditions_join]
    split
    · exact leftIh.trans (List.sublist_append_left _ _)
    · exact leftIh.append rightIh

/-- An evaluation takes the same way wherever the conditions on its way have the same values. -/
theorem run_congr (agree : ∀ id ∈ (t.run f).evaluated, g id = f id) : t.run g = t.run f := by
  induction t with
  | condition id =>
    have same : g id = f id := agree id (List.mem_singleton.mpr rfl)
    rw [run, run, same]
  | not operand ih =>
    have inner : operand.run g = operand.run f := ih agree
    rw [run, run, inner]
  | join op left right marker leftIh rightIh =>
    rw [run_join] at agree
    rw [run_join, run_join]
    split at agree
    · rename_i settled
      have first : left.run g = left.run f := leftIh agree
      rw [first, if_pos settled, if_pos settled]
    · rename_i opened
      have first : left.run g = left.run f := leftIh fun id member => agree id (List.mem_append_left _ member)
      have second : right.run g = right.run f := rightIh fun id member => agree id (List.mem_append_right _ member)
      rw [first, second]

/-- Evaluation is faithful and local: it gives the value of the tree, looks at some of its conditions in their order,
and comes out the same under every assignment that agrees on these. -/
theorem run_faithful (t : ConditionTree) (f : MarkerId → Bool) :
    (t.run f).outcome = t.value f ∧ (t.run f).evaluated ≠ [] ∧ (t.run f).evaluated.Sublist t.conditions ∧
      ∀ g : MarkerId → Bool, (∀ id ∈ (t.run f).evaluated, g id = f id) → t.run g = t.run f :=
  ⟨outcome_run t f, evaluated_run_ne_nil t f, evaluated_run_sublist t f, fun _ => run_congr⟩

/-- In `2 && !(3 || 4)` the condition 4 is not looked at while 3 holds. -/
theorem run_faithful_skipped :
    let tree := join .and (.condition 2) (.not (.join .or (.condition 3) (.condition 4) none)) none
    tree.run (fun id => id != 4) = ⟨false, [2, 3]⟩ ∧ tree.run (fun _ => true) = tree.run (fun id => id != 4) := by
  intro tree
  have skipped : tree.run (fun id => id != 4) = ⟨false, [2, 3]⟩ := rfl
  refine ⟨skipped, (run_faithful tree (fun id => id != 4)).2.2.2 _ fun id member => ?_⟩
  rw [skipped] at member
  simp only [List.mem_cons, List.not_mem_nil, or_false] at member
  rcases member with rfl | rfl <;> rfl

/-- A condition that is not looked at does not matter. -/
theorem run_update_of_notMem (unseen : id ∉ (t.run f).evaluated) (on : Bool) :
    t.run (Function.update f id on) = t.run f := by
  refine run_congr fun other member => Function.update_of_ne ?_ on f
  rintro rfl
  exact unseen member

theorem value_update_of_notMem (absent : id ∉ t.conditions) (on : Bool) :
    t.value (Function.update f id on) = t.value f := by
  have unseen : id ∉ (t.run f).evaluated := fun member => absent ((evaluated_run_sublist t f).subset member)
  rw [← outcome_run, ← outcome_run, run_update_of_notMem unseen]

theorem mem_polaritiesUnder_flip (polarity : Polarity) :
    (id, p) ∈ t.polaritiesUnder polarity.flip ↔ (id, p.flip) ∈ t.polaritiesUnder polarity := by
  induction t generalizing polarity with
  | condition other => cases p <;> cases polarity <;> simp [polaritiesUnder, Polarity.flip]
  | not operand ih => exact ih polarity.flip
  | join op left right marker leftIh rightIh =>
    rw [polaritiesUnder, polaritiesUnder, List.mem_append, List.mem_append, leftIh, rightIh]

/-- Turning a condition on moves the value of the tree the way its polarity says. -/
theorem moves_value_update (nodup : t.conditions.Nodup) (member : (id, p) ∈ t.polarities) (off : f id = false) :
    p.Moves (t.value f) (t.value (Function.update f id true)) := by
  induction t generalizing p with
  | condition other =>
    obtain ⟨rfl, rfl⟩ : id = other ∧ p = .direct := by simpa [polarities, polaritiesUnder] using member
    simp [value, Polarity.Moves, off]
  | not operand ih =>
    rw [conditions_not] at nodup
    have inner : (id, p.flip) ∈ operand.polarities := (mem_polaritiesUnder_flip .direct).mp member
    exact (ih nodup inner).not
  | join op left right marker leftIh rightIh =>
    rw [conditions_join, List.nodup_append'] at nodup
    obtain ⟨leftNodup, rightNodup, disjoint⟩ := nodup
    -- The condition stands in one operand, and the other operand does not move.
    have both : p.Moves (left.value f) (left.value (Function.update f id true)) ∧
        p.Moves (right.value f) (right.value (Function.update f id true)) := by
      rcases List.mem_append.mp member with inLeft | inRight
      · have absent : id ∉ right.conditions := disjoint (mem_conditions_of_polarities inLeft)
        refine ⟨leftIh leftNodup inLeft, ?_⟩
        rw [value_update_of_notMem absent]
        exact .refl p _
      · have absent : id ∉ left.conditions := fun inLeft => disjoint inLeft (mem_conditions_of_polarities inRight)
        refine ⟨?_, rightIh rightNodup inRight⟩
        rw [value_update_of_notMem absent]
        exact .refl p _
    cases op with
    | and => exact both.1.and both.2
    | or => exact both.1.or both.2

/-- A condition that changes the outcome has been looked at. -/
theorem mem_evaluated_of_outcome_ne (on : Bool)
    (differ : (t.run f).outcome ≠ (t.run (Function.update f id on)).outcome) :
    id ∈ (t.run f).evaluated := by
  by_contra unseen
  rw [run_update_of_notMem unseen] at differ
  exact differ rfl

/-- Polarities tell the direction of influence. Turning a direct condition on never turns the outcome off, turning an
inverted one on never turns it on, and where the outcome changes both evaluations have looked at the condition. -/
theorem outcome_of_polarity (nodup : t.conditions.Nodup) (member : (id, p) ∈ t.polarities) (off : f id = false) :
    (p = .direct → (t.run f).outcome = true → (t.run (Function.update f id true)).outcome = true) ∧
      (p = .inverted → (t.run (Function.update f id true)).outcome = true → (t.run f).outcome = true) ∧
      ((t.run f).outcome ≠ (t.run (Function.update f id true)).outcome →
        id ∈ (t.run f).evaluated ∧ id ∈ (t.run (Function.update f id true)).evaluated) := by
  have moves := moves_value_update nodup member off
  rw [← outcome_run, ← outcome_run] at moves
  have back : Function.update (Function.update f id true) id false = f := by
    rw [Function.update_idem, ← off, Function.update_eq_self]
  refine ⟨?_, ?_, ?_⟩
  · rintro rfl
    exact Bool.le_iff_imp.mp moves
  · rintro rfl
    exact Bool.le_iff_imp.mp moves
  · intro differ
    refine ⟨mem_evaluated_of_outcome_ne true differ, mem_evaluated_of_outcome_ne false ?_⟩
    rw [back]
    exact differ.symm

/-- In `2 && !(3 || 4)` the condition 3 is inverted; while only 2 holds it decides. -/
theorem outcome_of_polarity_inverted :
    let tree := join .and (.condition 2) (.not (.join .or (.condition 3) (.condition 4) none)) none
    let only : MarkerId → Bool := fun id => id == 2
    ((tree.run (Function.update only 3 true)).outcome = true → (tree.run only).outcome = true) ∧
      3 ∈ (tree.run only).evaluated ∧ 3 ∈ (tree.run (Function.update only 3 true)).evaluated := by
  intro tree only
  have inverted : (3, Polarity.inverted) ∈ tree.polarities := by decide
  have influence := outcome_of_polarity (f := only) (by decide) inverted rfl
  exact ⟨influence.2.1 rfl, influence.2.2 (by decide)⟩

end ConditionTree

end SourceCoverage
