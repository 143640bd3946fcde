import Mathlib.Algebra.Order.BigOperators.Group.List
import Mathlib.Algebra.Order.Group.Nat
import Mathlib.Data.Finset.Card
import SourceCoverage.Proofs.Finder.Checkpoints
import SourceCoverage.Proofs.Finder.Consistent

namespace SourceCoverage

/-- The number of nodes of a tree. -/
def SyntaxNode.size (n : SyntaxNode) : Nat := (n.occurrences []).length

theorem SyntaxNode.length_occurrences (n : SyntaxNode) (above : Ancestors) :
    (n.occurrences above).length = n.size := by
  unfold size
  generalize ([] : Ancestors) = other
  induction n using SyntaxNode.induction generalizing above other with
  | step n ih =>
    rw [occurrences_eq, occurrences_eq, List.length_cons, List.length_cons, List.length_flatMap, List.length_flatMap]
    refine congrArg (List.sum · + 1) (List.map_congr_left ?_)
    rintro ⟨c, i⟩ child
    exact ih c (List.mem_of_getElem? (List.mem_zipIdx_iff_getElem?.mp child)) _ _

theorem SyntaxNode.size_eq (n : SyntaxNode) : n.size = (n.children.map size).sum + 1 := by
  rw [← n.length_occurrences [], occurrences_eq, List.length_cons, List.length_flatMap]
  conv_rhs => rw [← List.zipIdx_map_fst 0 n.children, List.map_map]
  refine congrArg (List.sum · + 1) (List.map_congr_left ?_)
  rintro ⟨c, i⟩ -
  exact c.length_occurrences _

/-- The second ledger is the first with some of the findings entered, and with decisions that refer to these. -/
def Ledger.Extends (ledger : Ledger) (findings : List Finder.Finding) (ledger' : Ledger) : Prop :=
  ∃ entered records, ledger.Grows entered records ledger' ∧ entered ⊆ findings ∧
    ∀ d ∈ records, ∀ id ∈ d.references, id.IsAmong ledger.markers.length entered.length

theorem Ledger.Extends.refl {ledger : Ledger} (agrees : ledger.Agrees) (findings : List Finder.Finding) :
    ledger.Extends findings ledger := ⟨[], [], .refl agrees, List.nil_subset _, fun _ absent => nomatch absent⟩

theorem Ledger.Extends.trans {ledger ledger' ledger'' : Ledger} {findings others : List Finder.Finding}
    (first : ledger.Extends findings ledger') (second : ledger'.Extends others ledger'') :
    ledger.Extends (findings ++ others) ledger'' := by
  obtain ⟨entered, records, grows, among, references⟩ := first
  obtain ⟨entered', records', grows', among', references'⟩ := second
  refine ⟨entered ++ entered', records ++ records', grows.trans grows', List.append_subset.mpr
    ⟨List.subset_append_of_subset_left _ among, List.subset_append_of_subset_right _ among'⟩, ?_⟩
  intro d member id reference
  have length := grows.length
  rw [List.length_append]
  rcases List.mem_append.mp member with old | new
  · exact (references d old id reference).mono (Nat.le_refl _) (by omega)
  · exact (references' d new id reference).mono (by omega) (by omega)

namespace Finder

variable {policy : DecisionPolicy}

/-- Entries that, whenever they are refused with `count` markers before, have entered a part of these findings, and no
decision. -/
def Stops {α : Type} (registration : Registration α) (count : Nat) (findings : List Finding) : Prop :=
  ∀ ledger, ledger.Agrees → ledger.markers.length = count → ∀ duplicate ledger',
    registration.run ledger = (.error duplicate, ledger') →
      ∃ entered, entered <+: findings ∧ entered.length < findings.length ∧ ledger.Grows entered [] ledger'

section Stops

variable {α β : Type} {first : Registration α} {next : α → Registration β} {count : Nat}
  {findings others : List Finding} {result : α}

theorem stops_pure (value : α) (count : Nat) : Stops (pure value) count [] := by
  rintro ledger - - duplicate ledger' run
  cases run

theorem stops_bind (yields : Yields first count findings [] result) (stops : Stops first count findings)
    (stops' : Stops (next result) (count + findings.length) others) :
    Stops (first >>= next) count (findings ++ others) := by
  intro ledger agrees length duplicate ledger' run
  cases begun : first.run ledger with
  | mk outcome between =>
    cases outcome with
    | error refused =>
      rw [Registration.run_bind_of_error begun] at run
      cases run
      obtain ⟨entered, part, short, grows⟩ := stops ledger agrees length _ _ begun
      exact ⟨entered, part.trans (List.prefix_append _ _), by rw [List.length_append]; omega, grows⟩
    | ok middle =>
      rw [Registration.run_bind_of_ok begun] at run
      obtain ⟨rfl, grows⟩ := yields ledger agrees length middle between begun
      obtain ⟨entered, part, short, grows'⟩ :=
        stops' between grows.agrees (by rw [grows.length, length]) duplicate ledger' run
      refine ⟨findings ++ entered, (List.prefix_append_right_inj _).mpr part, ?_, grows.trans grows'⟩
      rw [List.length_append, List.length_append]
      omega

end Stops

theorem Finding.Enters.stops {registration : Registration MarkerId} {f : Finding} (enters : f.Enters registration)
    (count : Nat) : Stops registration count [f] := by
  rintro ledger agrees - duplicate ledger' run
  cases found : ledger.number? f.spot with
  | none =>
    rw [enters.free ledger found] at run
    cases run
  | some existing =>
    rw [enters.taken ledger existing found] at run
    cases run
    exact ⟨[], List.nil_prefix, Nat.zero_lt_one, .refl agrees⟩

theorem stops_evaluation (sect : Section) (kind : EvaluationKind) (count : Nat) :
    Stops (Registration.evaluation sect kind) count [.evaluation sect kind] :=
  (Finding.enters_evaluation sect kind).stops count

theorem stops_operator (policy : DecisionPolicy) (isRoot : Bool) (sect : Section) (count : Nat) :
    Stops (Registration.operator policy isRoot sect) count
      (if !isRoot && policy == .allNodes then [.evaluation sect .decision] else []) := by
  unfold Registration.operator
  split
  · exact stops_bind (yields_evaluation sect .decision count) (stops_evaluation sect .decision count) (stops_pure _ _)
  · exact stops_pure none count

theorem stops_tree (policy : DecisionPolicy) (isRoot : Bool) (expr : DecisionExpr) (leaves : List SyntaxNode)
    (count : Nat) :
    Stops (Registration.tree policy isRoot expr leaves) count (treeFindings policy isRoot expr) := by
  induction expr generalizing isRoot leaves count with
  | leaf node =>
    unfold Registration.tree
    exact stops_bind (yields_evaluation node.sect .condition count) (stops_evaluation node.sect .condition count)
      (stops_pure _ _)
  | not sect operand ih =>
    unfold Registration.tree treeFindings
    rw [← List.append_nil (treeFindings policy false operand)]
    exact stops_bind (yields_tree policy false operand leaves count) (ih false leaves count) (stops_pure _ _)
  | join op sect left right leftIh rightIh =>
    unfold Registration.tree treeFindings
    rw [← List.append_nil (treeFindings policy false right)]
    exact stops_bind (yields_operator policy isRoot sect count) (stops_operator policy isRoot sect count)
      (stops_bind (yields_tree policy false left leaves _) (leftIh false leaves _)
        (stops_bind (yields_tree policy false right (leaves ++ left.leaves) _) (rightIh false _ _) (stops_pure _ _)))

/-- A decision that is refused leaves no record, only a part of its markers. -/
theorem stops_decision (policy : DecisionPolicy) (expr : DecisionExpr) (count : Nat) :
    Stops (Registration.decision policy expr) count (decisionFindings policy expr []) := by
  unfold Registration.decision
  change Stops _ count ([.evaluation expr.sect .decision] ++ (treeFindings policy true expr ++ []))
  refine stops_bind (yields_evaluation expr.sect .decision count) (stops_evaluation expr.sect .decision count)
    (stops_bind (yields_tree policy true expr [] _) (stops_tree policy true expr [] _) ?_)
  rintro ledger - - duplicate ledger' run
  cases run

theorem extends_decision (policy : DecisionPolicy) (expr : DecisionExpr) {ledger : Ledger} (agrees : ledger.Agrees) :
    ledger.Extends (decisionFindings policy expr []) ((Registration.decision policy expr).run ledger).2 := by
  cases run : (Registration.decision policy expr).run ledger with
  | mk outcome ledger' =>
    cases outcome with
    | error duplicate =>
      obtain ⟨entered, part, -, grows⟩ := stops_decision policy expr _ ledger agrees rfl duplicate ledger' run
      exact ⟨entered, [], grows, part.subset, fun _ absent => nomatch absent⟩
    | ok made =>
      obtain ⟨-, grows⟩ := yields_decision policy expr _ ledger agrees rfl made ledger' run
      refine ⟨_, _, grows, List.Subset.refl _, ?_⟩
      intro d member
      rw [List.mem_singleton.mp member]
      exact references_decisionOf _ expr

theorem extends_checkpoint (sect : Section) (braced : Bool) {ledger : Ledger} (agrees : ledger.Agrees) :
    ledger.Extends [.checkpoint sect braced]
      ((Registration.checkpoint sect.start (if braced then some sect.stop else none)).run ledger).2 := by
  have enters := Finding.enters_checkpoint sect braced
  cases found : ledger.number? (Finding.checkpoint sect braced).spot with
  | none =>
    rw [enters.free ledger found]
    exact ⟨_, [], Ledger.grows_enter agrees found, List.Subset.refl _, fun _ absent => nomatch absent⟩
  | some existing =>
    rw [enters.taken ledger existing found]
    exact .refl agrees _

mutual

theorem extends_step (policy : DecisionPolicy) (step : Step) (walk : Walk) (agrees : walk.ledger.Agrees) :
    walk.ledger.Extends (step.findings policy) (step.run policy walk).ledger := by
  match step with
  | .checkpoint sect braced =>
    have entered := extends_checkpoint sect braced agrees
    rw [Step.run, Step.findings]
    split
    · rename_i id ledger' run
      rw [run] at entered
      exact entered
    · rename_i duplicate ledger' run
      rw [run] at entered
      exact entered
  | .decision expr inside =>
    have entered := extends_decision policy expr agrees
    have agrees' := Registration.keepsAgreement_decision policy expr walk.ledger agrees
    rw [Step.run, Step.findings_decision]
    split
    · rename_i made ledger' run
      rw [run] at entered agrees'
      exact Ledger.Extends.trans entered
        (extends_steps policy inside { walk with ledger := ledger', decisions := walk.decisions + 1 } agrees')
    · rename_i duplicate ledger' run
      rw [run] at entered agrees'
      exact entered.trans (.refl agrees' _)
  | .visit steps =>
    rw [Step.run, Step.findings]
    split
    · exact .refl agrees _
    · exact extends_steps policy steps walk agrees

/-- Whether or not steps fail, they only add to the ledger. -/
theorem extends_steps (policy : DecisionPolicy) (steps : List Step) (walk : Walk) (agrees : walk.ledger.Agrees) :
    walk.ledger.Extends (findingsAll policy steps) (runAll policy steps walk).ledger := by
  match steps with
  | [] => exact .refl agrees _
  | step :: steps =>
    rw [runAll, findingsAll]
    exact (extends_step policy step walk agrees).trans (extends_steps policy steps _ (agrees_step step agrees))

end

/-- How many findings can be told apart. -/
def variety (findings : List Finding) : Nat := findings.toFinset.card

section Variety

variable {findings others : List Finding}

theorem variety_append (findings others : List Finding) :
    variety (findings ++ others) ≤ variety findings + variety others := by
  rw [variety, List.toFinset_append]
  exact Finset.card_union_le _ _

theorem variety_cons (f : Finding) (findings : List Finding) : variety (f :: findings) ≤ variety findings + 1 := by
  rw [variety, List.toFinset_cons]
  exact Finset.card_insert_le _ _

theorem variety_mono (among : findings ⊆ others) : variety findings ≤ variety others :=
  Finset.card_le_card fun _ member => List.mem_toFinset.mpr (among (List.mem_toFinset.mp member))

theorem variety_flatMap {found : SyntaxNode → List Finding} {children : List SyntaxNode}
    (few : ∀ c ∈ children, variety (found c) ≤ 2 * c.size) :
    variety (children.flatMap found) ≤ 2 * (children.map SyntaxNode.size).sum := by
  induction children with
  | nil => exact Nat.zero_le _
  | cons c children ih =>
    have first := few c List.mem_cons_self
    have rest := ih fun d member => few d (List.mem_cons_of_mem _ member)
    have whole := variety_append (found c) (children.flatMap found)
    rw [List.flatMap_cons, List.map_cons, List.sum_cons]
    omega

end Variety

/-- However a node is met, it accounts for no more than two findings, and so does every node below it. -/
structure Sparse (policy : DecisionPolicy) (n : SyntaxNode) : Prop where
  visit : ∀ executable placement, variety (nodeFindings policy executable placement n) ≤ 2 * n.size
  inside : variety (treeFindings policy false (DecisionExpr.ofNode n) ++ insideFindings policy n) ≤ 2 * n.size
  root : variety (rootFindings policy n) ≤ 2 * n.size

section Sparse

variable {n : SyntaxNode} {placement : Placement} {findings : List Finding}

theorem sum_size_sublist {children : List SyntaxNode} (sublist : children.Sublist n.children) :
    (children.map SyntaxNode.size).sum + 1 ≤ n.size := by
  rw [n.size_eq]
  exact Nat.succ_le_succ ((sublist.map _).sum_le_sum fun _ _ => Nat.zero_le _)

theorem ChildVisit.variety_le {c : SyntaxNode} (visit : ChildVisit policy n placement c findings)
    (sparse : Sparse policy c) : variety findings ≤ 2 * c.size := by
  cases visit with
  | none => exact Nat.zero_le _
  | root _ => exact sparse.root
  | node executable inner _ => exact sparse.visit executable inner

/-- A node that is no operator adds nothing but its checkpoint, and that only where it is not nested. -/
theorem Visited.variety_le (visited : Visited policy n placement findings)
    (sparse : ∀ c ∈ n.children, Sparse policy c) :
    variety findings + 1 ≤ 2 * n.size ∧ (placement = .nested → variety findings + 2 ≤ 2 * n.size) := by
  cases visited with
  | @children children found sublist visits =>
    have few := variety_flatMap fun c member =>
      (visits c member).variety_le (sparse c (sublist.subset member))
    have sizes := sum_size_sublist sublist
    omega
  | @statement braced found stands visits =>
    have few := variety_flatMap fun c member => (visits c member).variety_le (sparse c member)
    have own := variety_cons (.checkpoint n.sect braced) (n.children.flatMap found)
    have sizes := sum_size_sublist (List.Sublist.refl n.children)
    exact ⟨by omega, fun nested => absurd nested stands⟩

theorem size_child {c : SyntaxNode} (child : c ∈ n.children) : c.size + 1 ≤ n.size := by
  have sizes := sum_size_sublist (List.singleton_sublist.mpr child)
  simpa using sizes

/-- The two operands of a connective are two children. -/
theorem size_operands {l r : SyntaxNode} (left : n.child? .left = some l) (right : n.child? .right = some r) :
    l.size + r.size + 1 ≤ n.size := by
  have apart : l ≠ r := by
    rintro rfl
    have playsLeft := List.find?_some left
    have playsRight := List.find?_some right
    rw [beq_iff_eq.mp playsLeft] at playsRight
    cases playsRight
  have both : [l, r] ⊆ n.children := by
    simp [List.mem_of_find?_eq_some left, List.mem_of_find?_eq_some right]
  obtain ⟨pair, same, sublist⟩ := List.subperm_of_subset (by simpa using apart) both
  have sizes := sum_size_sublist sublist
  rw [(same.map SyntaxNode.size).sum_eq] at sizes
  simpa using sizes

/-- An operator and what is found in its operands. -/
theorem variety_joined {left right : List Finding} {few few' : Nat} (fewLeft : variety left ≤ few)
    (fewRight : variety right ≤ few') (f : Finding) (among : findings ⊆ f :: (left ++ right)) :
    variety findings ≤ few + few' + 1 := by
  have grouped := variety_append left right
  have own := variety_cons f (left ++ right)
  have whole := variety_mono among
  omega

/-- A node that is a decision and a condition. -/
theorem variety_pair (among : findings ⊆ [.evaluation n.sect .decision, .evaluation n.sect .condition]) :
    variety findings ≤ 2 * n.size := by
  have two : variety [.evaluation n.sect .decision, .evaluation n.sect .condition] ≤ 2 := List.toFinset_card_le _
  have whole := variety_mono among
  rw [n.size_eq]
  omega

/-- The findings of a decision that is a part of another one. -/
theorem variety_inside (sparse : ∀ c ∈ n.children, Sparse policy c) :
    variety (treeFindings policy false (DecisionExpr.ofNode n) ++ insideFindings policy n) ≤ 2 * n.size := by
  cases shape n with
  | leaf leaf =>
    have nested : variety (nodeFindings policy true .nested n) + 2 ≤ 2 * n.size :=
      ((visited_nodeFindings (fun _ => leaf.plain) .nested).variety_le sparse).2 rfl
    have own := variety_cons (.evaluation n.sect .condition) (nodeFindings policy true .nested n)
    rw [leaf.ofNode_eq, leaf.insideFindings_eq]
    show variety (.evaluation n.sect .condition :: nodeFindings policy true .nested n) ≤ _
    omega
  | parenthesized role sect inner =>
    have child : inner ∈ (SyntaxNode.node (.expression .parenthesized) role sect [inner]).children :=
      List.mem_singleton.mpr rfl
    have few := (sparse inner child).inside
    have sizes := size_child child
    rw [insideFindings_parenthesized, DecisionExpr.ofNode]
    omega
  | @not _ c kind operand =>
    have child := List.mem_of_find?_eq_some operand
    have few := (sparse c child).inside
    have sizes := size_child child
    rw [ofNode_not kind operand, insideFindings_not kind operand, treeFindings]
    omega
  | @join _ l r kind left right =>
    obtain ⟨op, expr⟩ := ofNode_join kind left right
    have fewLeft := (sparse l (List.mem_of_find?_eq_some left)).inside
    have fewRight := (sparse r (List.mem_of_find?_eq_some right)).inside
    have sizes := size_operands left right
    rw [expr, insideFindings_join kind left right, treeFindings]
    refine (variety_joined fewLeft fewRight (.evaluation n.sect .decision) ?_).trans (by omega)
    intro f member
    simp only [List.mem_append, List.mem_cons] at member ⊢
    split at member <;> simp only [List.mem_singleton, List.not_mem_nil] at member <;> tauto
  | lacking lacks =>
    -- the condition that such an operator is would be entered twice
    rw [lacks.ofNode_eq, lacks.insideFindings_eq]
    exact variety_pair (by simp [treeFindings])

theorem variety_root (sparse : ∀ c ∈ n.children, Sparse policy c) : variety (rootFindings policy n) ≤ 2 * n.size := by
  cases shape n with
  | leaf leaf =>
    have nested : variety (nodeFindings policy true .nested n) + 2 ≤ 2 * n.size :=
      ((visited_nodeFindings (fun _ => leaf.plain) .nested).variety_le sparse).2 rfl
    have own := variety_cons (.evaluation n.sect .decision)
      (.evaluation n.sect .condition :: nodeFindings policy true .nested n)
    have condition := variety_cons (.evaluation n.sect .condition) (nodeFindings policy true .nested n)
    rw [rootFindings_leaf leaf]
    omega
  | parenthesized role sect inner =>
    have child : inner ∈ (SyntaxNode.node (.expression .parenthesized) role sect [inner]).children :=
      List.mem_singleton.mpr rfl
    have few := (sparse inner child).root
    have sizes := size_child child
    rw [rootFindings_parenthesized]
    omega
  | @not _ c kind operand =>
    have child := List.mem_of_find?_eq_some operand
    have few := (sparse c child).inside
    have sizes := size_child child
    have own := variety_cons (.evaluation n.sect .decision)
      (treeFindings policy false (DecisionExpr.ofNode c) ++ insideFindings policy c)
    rw [rootFindings_not kind operand]
    omega
  | @join _ l r kind left right =>
    have fewLeft := (sparse l (List.mem_of_find?_eq_some left)).inside
    have fewRight := (sparse r (List.mem_of_find?_eq_some right)).inside
    have sizes := size_operands left right
    rw [rootFindings_join kind left right]
    refine (variety_joined fewLeft fewRight (.evaluation n.sect .decision) ?_).trans (by omega)
    intro f member
    simp only [List.mem_append, List.mem_cons] at member ⊢
    tauto
  | lacking lacks =>
    rw [rootFindings, lacks.ofNode_eq, lacks.insideFindings_eq]
    exact variety_pair (by simp [decisionFindings, DecisionExpr.sect, treeFindings])

end Sparse

/-- No tree has more than two findings for each of its nodes. -/
theorem sparse (policy : DecisionPolicy) (n : SyntaxNode) : Sparse policy n := by
  induction n using SyntaxNode.induction with
  | step n ih =>
    refine ⟨?_, variety_inside ih, variety_root ih⟩
    intro executable placement
    by_cases plain : executable = true → n.kind.isLogical = false
    · have few : variety (nodeFindings policy executable placement n) + 1 ≤ 2 * n.size :=
        ((visited_nodeFindings plain placement).variety_le ih).1
      omega
    · obtain ⟨rfl, logical⟩ := Classical.not_imp.mp plain
      rw [nodeFindings_logical (Bool.not_eq_false _ ▸ logical)]
      exact variety_root ih

theorem clashes_self (f : Finding) : f.Clashes f := by
  cases f with
  | checkpoint sect braced => exact rfl
  | evaluation sect kind => exact ⟨rfl, rfl⟩

theorem Distinct.nodup {findings : List Finding} (distinct : Distinct findings) : findings.Nodup := by
  refine List.Pairwise.imp ?_ distinct
  rintro f g apart rfl
  exact apart (clashes_self f)

/-- What a walk over a tree leaves in a fresh ledger, whether or not it fails. -/
theorem grows_walk (policy : DecisionPolicy) (root : SyntaxNode) (hash : String) :
    ∃ entered records,
      ({ sourceHash := hash } : Ledger).Grows entered records (walk policy root { sourceHash := hash }).ledger ∧
      entered.length ≤ 2 * root.size ∧ ∀ d ∈ records, ∀ id ∈ d.references, id.IsAmong 0 entered.length := by
  obtain ⟨entered, records, grows, among, references⟩ :=
    extends_step policy (.visit ((visits root).asNode false .nested)) { ledger := { sourceHash := hash } }
      (Ledger.agrees_empty hash)
  refine ⟨entered, records, grows, ?_, references⟩
  have nodup := (distinct_of_grows grows).nodup
  calc entered.length = variety entered := (List.toFinset_card_of_nodup nodup).symm
    _ ≤ variety (nodeFindings policy false .nested root) := variety_mono among
    _ ≤ 2 * root.size := (sparse policy root).visit false .nested

/-- In a tree of less than 2 ^ 31 nodes there are ids for all markers. -/
theorem length_markers_walk {root : SyntaxNode} (few : root.size < 2 ^ 31) (policy : DecisionPolicy) (hash : String) :
    (walk policy root { sourceHash := hash }).ledger.markers.length < 2 ^ 32 := by
  obtain ⟨entered, records, grows, bound, -⟩ := grows_walk policy root hash
  have length : (walk policy root { sourceHash := hash }).ledger.markers.length = 0 + entered.length := grows.length
  omega

end Finder

end SourceCoverage
