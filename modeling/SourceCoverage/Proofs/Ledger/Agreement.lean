import Mathlib.Algebra.Ring.Nat
import SourceCoverage.Decision.Registration
import SourceCoverage.Proofs.Document

namespace SourceCoverage

/-- As many ids as `length`, from the number after `count` on. -/
def MarkerId.after (count length : Nat) : List MarkerId := (List.range' (count + 1) length).map Nat.toUInt32

namespace MarkerId

theorem after_add (count length more : Nat) :
    after count (length + more) = after count length ++ after (count + length) more := by
  rw [after, ← List.range'_append_1, List.map_append]
  congr 3
  omega

/-- As long as there are ids, they are the numbers. -/
theorem map_toNat_after {count length : Nat} (enough : count + length < 2 ^ 32) :
    (after count length).map UInt32.toNat = List.range' (count + 1) length := by
  rw [after, List.map_map]
  conv_rhs => rw [← List.map_id (List.range' (count + 1) length)]
  refine List.map_congr_left ?_
  intro k member
  have bound := List.mem_range'_1.mp member
  exact Nat.mod_eq_of_lt (by omega)

theorem pairwise_after {count length : Nat} (enough : count + length < 2 ^ 32) :
    (after count length).Pairwise (· < ·) := by
  have increasing : ((after count length).map UInt32.toNat).Pairwise (· < ·) := by
    rw [map_toNat_after enough]
    exact List.pairwise_lt_range'
  exact (List.pairwise_map.mp increasing).imp UInt32.lt_iff_toNat_lt.mpr

end MarkerId

namespace Ledger

/-- What holds one marker: a position for checkpoints, and a section for evaluations of one kind. -/
inductive Spot where
  | checkpoint (position : Position)
  | evaluation (sect : Section) (kind : EvaluationKind)
deriving DecidableEq, Repr

/-- The refusal of an entry whose spot has a marker already. -/
def Spot.taken (existing : MarkerId) : Spot → Duplicate
  | checkpoint position => .checkpoint position existing
  | evaluation sect kind => .evaluation sect kind existing

/-- What a ledger looks up for a spot. -/
def number? (ledger : Ledger) : Spot → Option MarkerId
  | .checkpoint position => ledger.checkpoints.lookup position
  | .evaluation sect kind => ledger.evaluations.lookup (sect, kind)

/-- A marker is entered on a spot under the next number. -/
def enter (ledger : Ledger) (spot : Spot) (marker : MarkerId → Marker) : Ledger :=
  let id := ledger.lastId + 1
  let entered := { ledger with lastId := id, markers := ledger.markers ++ [marker id] }
  match spot with
  | .checkpoint position => { entered with checkpoints := (position, id) :: ledger.checkpoints }
  | .evaluation sect kind => { entered with evaluations := ((sect, kind), id) :: ledger.evaluations }

end Ledger

/-- The spot of a marker in a ledger. -/
def Marker.spot? (m : Marker) : Option Ledger.Spot :=
  match m.kind, m.extent? with
  | .checkpoint, _ => some (.checkpoint m.start)
  | .evaluation kind, some sect => some (.evaluation sect kind)
  | .evaluation _, none => none

/-- The markers that are entered on a spot, whatever number they are given. -/
structure Ledger.Spot.Takes (spot : Ledger.Spot) (marker : MarkerId → Marker) : Prop where
  spot : ∀ id, (marker id).spot? = some spot
  id : ∀ id, (marker id).id = id
  regular : ∀ id, (marker id).Regular

namespace Registration

section Running

variable {α β : Type} {first : Registration α} {next : α → Registration β} {ledger ledger' : Ledger}

theorem run_bind_of_ok {result : α} (run : first.run ledger = (.ok result, ledger')) :
    (first >>= next).run ledger = (next result).run ledger' := by
  have begun : first ledger = (.ok result, ledger') := run
  simp only [ExceptT.run, bind, ExceptT.bind, ExceptT.mk, StateT.bind, begun]
  rfl

theorem run_bind_of_error {duplicate : Duplicate} (run : first.run ledger = (.error duplicate, ledger')) :
    (first >>= next).run ledger = (.error duplicate, ledger') := by
  have begun : first ledger = (.error duplicate, ledger') := run
  simp only [ExceptT.run, bind, ExceptT.bind, ExceptT.mk, StateT.bind, begun]
  rfl

end Running

theorem run_get (ledger : Ledger) : (get : Registration Ledger).run ledger = (.ok ledger, ledger) := rfl

/-- The entry of one marker: refused where its spot has one already, and entered under the next number otherwise. -/
structure Asks (registration : Registration MarkerId) (spot : Ledger.Spot) (marker : MarkerId → Marker) : Prop where
  taken : ∀ ledger existing, ledger.number? spot = some existing →
    registration.run ledger = (.error (spot.taken existing), ledger)
  free : ∀ ledger, ledger.number? spot = none →
    registration.run ledger = (.ok (ledger.lastId + 1), ledger.enter spot marker)

theorem asks_checkpoint (position : Position) (scopeEnd : Option Position) :
    (checkpoint position scopeEnd).Asks (.checkpoint position) fun id =>
      { Marker.checkpoint id position with scopeEnd } := by
  constructor
  · intro ledger existing (found : ledger.checkpoints.lookup position = some existing)
    rw [checkpoint, run_bind_of_ok (run_get ledger), found]
    rfl
  · intro ledger (absent : ledger.checkpoints.lookup position = none)
    rw [checkpoint, run_bind_of_ok (run_get ledger), absent]
    rfl

theorem asks_evaluation (sect : Section) (kind : EvaluationKind) :
    (evaluation sect kind).Asks (.evaluation sect kind) fun id => .evaluation id sect kind := by
  constructor
  · intro ledger existing (found : ledger.evaluations.lookup (sect, kind) = some existing)
    rw [evaluation, run_bind_of_ok (run_get ledger), found]
    rfl
  · intro ledger (absent : ledger.evaluations.lookup (sect, kind) = none)
    rw [evaluation, run_bind_of_ok (run_get ledger), absent]
    rfl

end Registration

namespace Ledger

theorem takes_checkpoint (position : Position) (scopeEnd : Option Position) :
    (Spot.checkpoint position).Takes fun id => { Marker.checkpoint id position with scopeEnd } :=
  ⟨fun _ => rfl, fun _ => rfl, fun id => .checkpoint id position scopeEnd⟩

theorem takes_evaluation (sect : Section) (kind : EvaluationKind) :
    (Spot.evaluation sect kind).Takes fun id => .evaluation id sect kind :=
  ⟨fun _ => rfl, fun _ => rfl, fun id => .evaluation id sect kind⟩

section Enter

variable (ledger : Ledger) (spot : Spot) (marker : MarkerId → Marker)

@[simp]
theorem markers_enter : (ledger.enter spot marker).markers = ledger.markers ++ [marker (ledger.lastId + 1)] := by
  cases spot <;> rfl

@[simp]
theorem lastId_enter : (ledger.enter spot marker).lastId = ledger.lastId + 1 := by
  cases spot <;> rfl

@[simp]
theorem decisions_enter : (ledger.enter spot marker).decisions = ledger.decisions := by
  cases spot <;> rfl

@[simp]
theorem sourceHash_enter : (ledger.enter spot marker).sourceHash = ledger.sourceHash := by
  cases spot <;> rfl

@[simp]
theorem number?_enter_self : (ledger.enter spot marker).number? spot = some (ledger.lastId + 1) := by
  cases spot <;> exact List.lookup_cons_self

variable {spot} in
/-- Only the look-up of the spot changes. -/
theorem number?_enter_of_ne {other : Spot} (apart : other ≠ spot) :
    (ledger.enter spot marker).number? other = ledger.number? other := by
  cases spot with
  | checkpoint position =>
    cases other with
    | checkpoint position' =>
      have apart' : (position' == position) = false := beq_false_of_ne fun same => apart (congrArg _ same)
      simp only [enter, number?, List.lookup_cons, apart']
    | evaluation sect kind => rfl
  | evaluation sect kind =>
    cases other with
    | checkpoint position => rfl
    | evaluation sect' kind' =>
      have apart' : ((sect', kind') == (sect, kind)) = false :=
        beq_false_of_ne fun same => apart (congrArg (fun key => Spot.evaluation key.1 key.2) same)
      simp only [enter, number?, List.lookup_cons, apart']

end Enter

/-- The counter, the markers and the look-ups tell the same. -/
structure Agrees (ledger : Ledger) : Prop where
  /-- The counter has counted the markers. -/
  counter : ledger.lastId = ledger.markers.length.toUInt32
  /-- They are numbered through in the order of entry. -/
  ids : ledger.markers.map Marker.id = MarkerId.after 0 ledger.markers.length
  /-- A look-up finds the marker that is there. -/
  lookup : ∀ spot id, ledger.number? spot = some id ↔ ∃ m ∈ ledger.markers, m.spot? = some spot ∧ m.id = id
  /-- No spot has two markers. -/
  spots : ledger.markers.Pairwise fun m n => m.spot? ≠ n.spot?
  regular : ∀ m ∈ ledger.markers, m.Regular

theorem agrees_empty (hash : String) : ({ sourceHash := hash } : Ledger).Agrees := by
  refine ⟨rfl, rfl, ?_, .nil, fun _ absent => nomatch absent⟩
  intro spot id
  cases spot <;> simp [number?]

namespace Agrees

variable {ledger : Ledger} {spot : Spot} {marker : MarkerId → Marker}

theorem number?_eq_none_iff (agrees : ledger.Agrees) :
    ledger.number? spot = none ↔ ∀ m ∈ ledger.markers, m.spot? ≠ some spot := by
  rw [Option.eq_none_iff_forall_ne_some]
  constructor
  · intro absent m member same
    exact absent m.id ((agrees.lookup spot m.id).mpr ⟨m, member, same, rfl⟩)
  · intro free id found
    obtain ⟨m, member, same, -⟩ := (agrees.lookup spot id).mp found
    exact free m member same

theorem next (agrees : ledger.Agrees) : ledger.lastId + 1 = (ledger.markers.length + 1).toUInt32 := by
  rw [agrees.counter]
  exact (UInt32.ofNat_add _ _).symm

/-- A marker on a free spot, under the next number, leaves the three in agreement. -/
theorem enter (agrees : ledger.Agrees) (takes : spot.Takes marker) (free : ledger.number? spot = none) :
    (ledger.enter spot marker).Agrees := by
  have apart := agrees.number?_eq_none_iff.mp free
  refine ⟨?_, ?_, ?_, ?_, ?_⟩
  · rw [lastId_enter, markers_enter, agrees.next, List.length_append]
    rfl
  · rw [markers_enter, List.map_append, agrees.ids, List.length_append, MarkerId.after_add, Nat.zero_add,
      List.map_singleton, takes.id, agrees.next]
    rfl
  · intro other id
    rw [markers_enter]
    simp only [List.mem_append, List.mem_singleton, or_and_right, exists_or, exists_eq_left, takes.spot, takes.id,
      ← agrees.lookup]
    by_cases same : other = spot
    · subst same
      simp [free]
    · simp [number?_enter_of_ne _ _ same, Ne.symm same]
  · rw [markers_enter]
    refine List.pairwise_append.mpr ⟨agrees.spots, List.pairwise_singleton _ _, ?_⟩
    intro m member n new
    rw [List.mem_singleton.mp new, takes.spot]
    exact apart m member
  · intro m member
    rw [markers_enter] at member
    rcases List.mem_append.mp member with old | new
    · exact agrees.regular m old
    · rw [List.mem_singleton.mp new]
      exact takes.regular _

theorem record (agrees : ledger.Agrees) (decisions : List Decision) : { ledger with decisions }.Agrees :=
  ⟨agrees.counter, agrees.ids, agrees.lookup, agrees.spots, agrees.regular⟩

end Agrees

end Ledger

namespace Registration

/-- Leaves a ledger in agreement, also where it is refused. -/
def KeepsAgreement {α : Type} (registration : Registration α) : Prop :=
  ∀ ledger : Ledger, ledger.Agrees → (registration.run ledger).2.Agrees

theorem keepsAgreement_pure {α : Type} (result : α) : KeepsAgreement (pure result) := fun _ agrees => agrees

theorem keepsAgreement_bind {α β : Type} {first : Registration α} {next : α → Registration β}
    (keeps : first.KeepsAgreement) (keeps' : ∀ result, (next result).KeepsAgreement) :
    KeepsAgreement (first >>= next) := by
  intro ledger agrees
  have between := keeps ledger agrees
  cases run : first.run ledger with
  | mk outcome ledger' =>
    rw [run] at between
    cases outcome with
    | error duplicate =>
      rw [run_bind_of_error run]
      exact between
    | ok result =>
      rw [run_bind_of_ok run]
      exact keeps' result ledger' between

theorem Asks.keepsAgreement {registration : Registration MarkerId} {spot : Ledger.Spot} {marker : MarkerId → Marker}
    (asks : registration.Asks spot marker) (takes : spot.Takes marker) : registration.KeepsAgreement := by
  intro ledger agrees
  cases found : ledger.number? spot with
  | none =>
    rw [asks.free ledger found]
    exact agrees.enter takes found
  | some existing =>
    rw [asks.taken ledger existing found]
    exact agrees

theorem keepsAgreement_checkpoint (position : Position) (scopeEnd : Option Position) :
    (checkpoint position scopeEnd).KeepsAgreement :=
  (asks_checkpoint position scopeEnd).keepsAgreement (Ledger.takes_checkpoint position scopeEnd)

theorem keepsAgreement_evaluation (sect : Section) (kind : EvaluationKind) : (evaluation sect kind).KeepsAgreement :=
  (asks_evaluation sect kind).keepsAgreement (Ledger.takes_evaluation sect kind)

theorem keepsAgreement_record (decision : Decision) : (record decision).KeepsAgreement :=
  fun _ agrees => agrees.record _

theorem keepsAgreement_operator (policy : DecisionPolicy) (isRoot : Bool) (sect : Section) :
    (operator policy isRoot sect).KeepsAgreement := by
  unfold operator
  split
  · exact keepsAgreement_bind (keepsAgreement_evaluation sect .decision) fun _ => keepsAgreement_pure _
  · exact keepsAgreement_pure none

theorem keepsAgreement_tree (policy : DecisionPolicy) (isRoot : Bool) (expr : DecisionExpr)
    (leaves : List SyntaxNode) :
    (tree policy isRoot expr leaves).KeepsAgreement := by
  induction expr generalizing isRoot leaves with
  | leaf node =>
    unfold tree
    exact keepsAgreement_bind (keepsAgreement_evaluation node.sect .condition) fun _ => keepsAgreement_pure _
  | not sect operand ih =>
    unfold tree
    exact keepsAgreement_bind (ih false leaves) fun _ => keepsAgreement_pure _
  | join op sect left right leftIh rightIh =>
    unfold tree
    exact keepsAgreement_bind (keepsAgreement_operator policy isRoot sect) fun _ =>
      keepsAgreement_bind (leftIh false leaves) fun _ => keepsAgreement_bind (rightIh false _) fun _ =>
        keepsAgreement_pure _

theorem keepsAgreement_decision (policy : DecisionPolicy) (expr : DecisionExpr) :
    (decision policy expr).KeepsAgreement := by
  unfold decision
  exact keepsAgreement_bind (keepsAgreement_evaluation expr.sect .decision) fun _ =>
    keepsAgreement_bind (keepsAgreement_tree policy true expr []) fun _ =>
      keepsAgreement_bind (keepsAgreement_record _) fun _ => keepsAgreement_pure _

end Registration

end SourceCoverage
