import Mathlib.Data.List.Pairwise
import Mathlib.Data.List.TakeWhile
import Mathlib.Order.Nat
import SourceCoverage.Instrumented.Laminar

namespace SourceCoverage.Span

/-- `a` may stand before `b` in the order of the pass. -/
def opensBefore (a b : Span) : Prop := a.start < b.start ∨ a.start = b.start ∧ b.stop ≤ a.stop

theorem order_isLE_iff {a b : Span} :
    (a.order b).isLE ↔ a.start < b.start ∨ a.start = b.start ∧
      (b.stop < a.stop ∨ a.stop = b.stop ∧ a.rank ≤ b.rank) := by
  simp only [order, Ordering.isLE_then_iff_or, Nat.compare_eq_lt, Nat.compare_eq_eq, Nat.isLE_compare]
  omega

theorem sorted_opensBefore (spans : List Span) :
    (spans.mergeSort fun a b => (a.order b).isLE).Pairwise opensBefore := by
  refine (List.pairwise_mergeSort ?_ ?_ spans).imp ?_
  · intro a b c first second
    rw [order_isLE_iff] at *
    omega
  · intro a b
    rw [Bool.or_eq_true, order_isLE_iff, order_isLE_iff]
    omega
  · intro a b before
    rw [order_isLE_iff] at before
    unfold opensBefore
    omega

theorem compatible_self (a : Span) : compatible a a := Or.inr (Or.inr (Or.inl ⟨le_rfl, le_rfl⟩))

theorem compatible_comm {a b : Span} : compatible a b ↔ compatible b a := by
  unfold compatible
  omega

/-- `a` starts first and stops inside `b`. -/
def crosses (a b : Span) : Prop := a.start < b.start ∧ b.start < a.stop ∧ a.stop < b.stop

instance (a b : Span) : Decidable (crosses a b) := inferInstanceAs (Decidable (_ ∧ _ ∧ _))

theorem not_compatible_of_crosses {a b : Span} (across : crosses a b) : ¬ compatible a b := by
  unfold crosses at across
  unfold compatible
  omega

/-- Spans that the stack gives up end before everything that is still to come. -/
theorem compatible_of_dropped {stack : List Span} {span s later : Span}
    (member : s ∈ stack) (dropped : s ∉ stack.dropWhile (·.stop ≤ span.start))
    (after : span.start ≤ later.start) : compatible s later := by
  have taken : s ∈ stack.takeWhile (·.stop ≤ span.start) := by
    rw [← List.takeWhile_append_dropWhile (p := (·.stop ≤ span.start)) (l := stack)] at member
    exact (List.mem_append.mp member).resolve_right dropped
  have ends : s.stop ≤ span.start := by simpa using List.mem_takeWhile_imp taken
  exact Or.inl (by omega)

/-- A round of the pass: either the next span goes on behind the innermost one that is still open, or it
stops inside that one and is put on top of the stack. -/
theorem crossingAmong_cons (stack : List Span) (span : Span) (rest : List Span) :
    (∃ top ∈ stack, span.start < top.stop ∧ top.stop < span.stop ∧
      crossingAmong stack (span :: rest) = some ⟨top.id, span.id⟩) ∨
    (∀ top ∈ (stack.dropWhile (·.stop ≤ span.start)).head?, span.stop ≤ top.stop) ∧
      crossingAmong stack (span :: rest) = crossingAmong (span :: stack.dropWhile (·.stop ≤ span.start)) rest := by
  rw [crossingAmong]
  cases kept : stack.dropWhile (·.stop ≤ span.start) with
  | nil => exact Or.inr ⟨by simp, rfl⟩
  | cons top below =>
    have member : top ∈ stack := (List.dropWhile_sublist _).subset (kept ▸ List.mem_cons_self)
    have isOpen : span.start < top.stop := by simpa [kept] using List.head?_dropWhile_not (·.stop ≤ span.start) stack
    by_cases behind : top.stop < span.stop
    · exact Or.inl ⟨top, member, isOpen, behind, if_pos behind⟩
    · refine Or.inr ⟨?_, if_neg behind⟩
      rintro _ ⟨⟩
      exact Nat.not_lt.mp behind

/-- What relates the spans on the stack to all that is to come still does so when the next one is put on top. -/
theorem forall_pushed {related : Span → Span → Prop} {stack rest : List Span} {span : Span}
    (first : ∀ t ∈ rest, related span t) (opened : ∀ s ∈ stack, ∀ t ∈ span :: rest, related s t) :
    ∀ s ∈ span :: stack.dropWhile (·.stop ≤ span.start), ∀ t ∈ rest, related s t := by
  intro s member t later
  rcases List.mem_cons.mp member with rfl | deeper
  · exact first t later
  · exact opened s ((List.dropWhile_sublist _).subset deeper) t (List.mem_cons_of_mem _ later)

/-- The stack is a chain: whatever lies deeper ends no earlier. Without a crossing all that is on the
stack and all that is to come is compatible. -/
theorem compatible_of_crossingAmong {stack spans : List Span}
    (found : crossingAmong stack spans = none)
    (chain : stack.Pairwise fun a b => a.stop ≤ b.stop)
    (sorted : spans.Pairwise opensBefore)
    (opened : ∀ s ∈ stack, ∀ t ∈ spans, s.start ≤ t.start) :
    spans.Pairwise compatible ∧ ∀ s ∈ stack, ∀ t ∈ spans, compatible s t := by
  induction spans generalizing stack with
  | nil => exact ⟨.nil, by simp⟩
  | cons span rest ih =>
    obtain ⟨first, restSorted⟩ := List.pairwise_cons.mp sorted
    have starts : ∀ t ∈ span :: rest, span.start ≤ t.start := by
      intro t member
      rcases List.mem_cons.mp member with rfl | later
      · exact le_rfl
      · rcases first t later with before | ⟨same, _⟩ <;> omega
    have chain' : (stack.dropWhile (·.stop ≤ span.start)).Pairwise fun a b => a.stop ≤ b.stop :=
      chain.sublist (List.dropWhile_sublist _)
    rcases crossingAmong_cons stack span rest with ⟨_, _, _, _, crossing⟩ | ⟨inTop, next⟩
    · cases found.symm.trans crossing
    -- Whichever part of the stack remains, the span lies in all of it.
    have encloses : ∀ s ∈ stack.dropWhile (·.stop ≤ span.start), span.stop ≤ s.stop := by
      intro s member
      cases kept : stack.dropWhile (·.stop ≤ span.start) with
      | nil => simp [kept] at member
      | cons top below =>
        rw [kept] at member chain'
        have inTop' := inTop top (by simp [kept])
        rcases List.mem_cons.mp member with rfl | deeper
        · exact inTop'
        · exact inTop'.trans ((List.pairwise_cons.mp chain').1 s deeper)
    obtain ⟨pairs, across⟩ := ih (next.symm.trans found) (List.pairwise_cons.mpr ⟨encloses, chain'⟩) restSorted
      (forall_pushed (List.forall_mem_cons.mp starts).2 opened)
    refine ⟨List.pairwise_cons.mpr ⟨across span List.mem_cons_self, pairs⟩, ?_⟩
    intro s member t target
    by_cases kept : s ∈ stack.dropWhile (·.stop ≤ span.start)
    · rcases List.mem_cons.mp target with rfl | later
      · have encloses' := encloses s kept
        have starts' := opened s member t List.mem_cons_self
        exact Or.inr (Or.inr (Or.inl ⟨starts', encloses'⟩))
      · exact across s (List.mem_cons_of_mem _ kept) t later
    · exact compatible_of_dropped member kept (starts t target)

/-- What the pass reports does cross: of spans that start together the longer one comes first, so that one on the
stack starts before one that goes on behind it. -/
theorem crosses_of_crossingAmong {stack spans : List Span} {crossing : Crossing}
    (found : crossingAmong stack spans = some crossing)
    (sorted : spans.Pairwise opensBefore) (opened : ∀ s ∈ stack, ∀ t ∈ spans, opensBefore s t) :
    ∃ a ∈ stack ++ spans, ∃ b ∈ spans, a.id = crossing.outer ∧ b.id = crossing.inner ∧ crosses a b := by
  induction spans generalizing stack with
  | nil => cases found
  | cons span rest ih =>
    obtain ⟨first, restSorted⟩ := List.pairwise_cons.mp sorted
    rcases crossingAmong_cons stack span rest with ⟨top, member, isOpen, behind, crossing'⟩ | ⟨_, next⟩
    · obtain rfl := Option.some.inj (crossing'.symm.trans found)
      refine ⟨top, List.mem_append_left _ member, span, List.mem_cons_self, rfl, rfl, ?_, isOpen, behind⟩
      rcases opened top member span List.mem_cons_self with before | ⟨_, longer⟩ <;> omega
    · obtain ⟨a, atA, b, atB, outer, inner, across⟩ := ih (next.symm.trans found) restSorted
        (forall_pushed first opened)
      refine ⟨a, ?_, b, List.mem_cons_of_mem _ atB, outer, inner, across⟩
      simp only [List.mem_append, List.mem_cons] at atA ⊢
      rcases atA with (rfl | deeper) | later
      · exact Or.inr (Or.inl rfl)
      · exact Or.inl ((List.dropWhile_sublist _).subset deeper)
      · exact Or.inr (Or.inr later)

theorem compatible_of_firstCrossing? {spans : List Span} (found : firstCrossing? spans = none) :
    spans.Pairwise compatible := by
  have sorted := sorted_opensBefore spans
  have pairs := (compatible_of_crossingAmong found .nil sorted (by simp)).1
  exact (List.mergeSort_perm spans _).pairwise pairs fun {_ _} => compatible_comm.mp

theorem crosses_of_firstCrossing? {spans : List Span} {crossing : Crossing}
    (found : firstCrossing? spans = some crossing) :
    ∃ a ∈ spans, ∃ b ∈ spans, a.id = crossing.outer ∧ b.id = crossing.inner ∧ crosses a b := by
  obtain ⟨a, atA, b, atB, crossing⟩ := crosses_of_crossingAmong found (sorted_opensBefore spans) (by simp)
  exact ⟨a, List.mem_mergeSort.mp atA, b, List.mem_mergeSort.mp atB, crossing⟩

theorem pairwise_compatible_iff {spans : List Span} :
    spans.Pairwise compatible ↔ ∀ a ∈ spans, ∀ b ∈ spans, compatible a b := by
  constructor
  · intro pairs a atA b atB
    have symmetric : Std.Symm compatible := ⟨fun _ _ => compatible_comm.mp⟩
    exact pairs.forall_of_forall (fun s _ => compatible_self s) atA atB
  · exact fun all => List.pairwise_of_forall_mem_list all

theorem firstCrossing?_of_compatible {spans : List Span} (pairs : spans.Pairwise compatible) :
    firstCrossing? spans = none := by
  rw [Option.eq_none_iff_forall_ne_some]
  intro crossing found
  obtain ⟨a, atA, b, atB, _, _, across⟩ := crosses_of_firstCrossing? found
  exact not_compatible_of_crosses across (pairwise_compatible_iff.mp pairs a atA b atB)

theorem firstCrossing?_eq_none_iff {spans : List Span} :
    firstCrossing? spans = none ↔ ∀ a ∈ spans, ∀ b ∈ spans, compatible a b :=
  ⟨fun found => pairwise_compatible_iff.mp (compatible_of_firstCrossing? found),
    fun all => firstCrossing?_of_compatible (pairwise_compatible_iff.mpr all)⟩

/-- No crossing is found exactly when any two spans are disjoint or nested, and where one is found, spans of its two
markers do cross. -/
theorem firstCrossing?_decides (spans : List Span) :
    (firstCrossing? spans = none ↔ ∀ a ∈ spans, ∀ b ∈ spans, compatible a b) ∧
      ∀ crossing, firstCrossing? spans = some crossing →
        ∃ a ∈ spans, ∃ b ∈ spans, a.id = crossing.outer ∧ b.id = crossing.inner ∧ crosses a b :=
  ⟨firstCrossing?_eq_none_iff, fun _ found => crosses_of_firstCrossing? found⟩

/-- Neighbours, an empty span between them and a span that is there twice; and a span that goes on behind another one
and starts together with an empty one. -/
theorem firstCrossing?_decides_boundaries :
    let crossed : List Span := [⟨1, 0, 4, 1⟩, ⟨2, 2, 7, 2⟩, ⟨3, 2, 2, 2⟩]
    firstCrossing? [⟨1, 0, 3, 2⟩, ⟨2, 3, 6, 2⟩, ⟨3, 0, 6, 1⟩, ⟨4, 3, 3, 2⟩, ⟨2, 3, 6, 2⟩] = none ∧
      firstCrossing? crossed = some ⟨1, 2⟩ ∧ ∃ a ∈ crossed, ∃ b ∈ crossed, a.id = 1 ∧ b.id = 2 ∧ crosses a b := by
  intro crossed
  have found : firstCrossing? crossed = some ⟨1, 2⟩ := by
    rw [firstCrossing?, List.mergeSort_of_pairwise (by decide)]
    decide
  exact ⟨(firstCrossing?_decides _).1.mpr (by decide), found, (firstCrossing?_decides _).2 _ found⟩

end SourceCoverage.Span
