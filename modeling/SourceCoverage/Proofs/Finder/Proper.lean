import SourceCoverage.Proofs.Finder.Nodes
import SourceCoverage.Proofs.LineIndex
import SourceCoverage.Utf8

namespace SourceCoverage

/-- A position of the source, between two of its characters. -/
def Position.IsIn (p : Position) (source : Octets) : Prop :=
  ∃ offset, (LineIndex.ofText source).offset? p = some offset ∧ Utf8.isBoundary source offset = true

instance (p : Position) (source : Octets) : Decidable (p.IsIn source) :=
  decidable_of_iff (((LineIndex.ofText source).offset? p).any (Utf8.isBoundary source) = true)
    (by simp [Position.IsIn, Option.any_eq_true])

/-- A section of the source with something in it. -/
structure Section.IsIn (s : Section) (source : Octets) : Prop where
  nonempty : s.start < s.stop
  start : s.start.IsIn source
  stop : s.stop.IsIn source

instance (s : Section) (source : Octets) : Decidable (s.IsIn source) :=
  decidable_of_iff (s.start < s.stop ∧ s.start.IsIn source ∧ s.stop.IsIn source)
    ⟨fun ⟨nonempty, start, stop⟩ => ⟨nonempty, start, stop⟩,
      fun ⟨nonempty, start, stop⟩ => ⟨nonempty, start, stop⟩⟩

namespace Section

theorem contains_iff {s t : Section} :
    s.contains t = true ↔ s.start.toNat ≤ t.start.toNat ∧ t.stop.toNat ≤ s.stop.toNat := by
  simp [contains, Position.le_iff_toNat]

theorem intersects_eq_false_iff {s t : Section} :
    s.intersects t = false ↔ t.stop.toNat ≤ s.start.toNat ∨ s.stop.toNat ≤ t.start.toNat := by
  simp only [intersects, Position.lt_iff_toNat, Bool.and_eq_false_iff, decide_eq_false_iff_not]
  omega

theorem eq_iff_toNat {s t : Section} :
    s = t ↔ s.start.toNat = t.start.toNat ∧ s.stop.toNat = t.stop.toNat := by
  obtain ⟨start, stop⟩ := s
  obtain ⟨start', stop'⟩ := t
  rw [Section.mk.injEq, Position.eq_iff_toNat, Position.eq_iff_toNat]

theorem IsIn.toNat_lt {s : Section} {source : Octets} (isIn : s.IsIn source) : s.start.toNat < s.stop.toNat :=
  Position.lt_iff_toNat.mp isIn.nonempty

end Section

/-- The sections of the children are where they belong. -/
structure ProperChildren (source : Octets) (n : SyntaxNode) : Prop where
  sections : ∀ c ∈ n.children, c.sect.IsIn source
  within : ∀ c ∈ n.children, n.sect.contains c.sect = true
  disjoint : n.children.Pairwise fun c d => c.sect.intersects d.sect = false
  inside : n.kind.isBlock = true → ∀ c ∈ n.children, n.sect.start < c.sect.start
  operands : n.kind = .expression .and ∨ n.kind = .expression .or →
    (n.child? .left).isSome = true ∧ (n.child? .right).isSome = true
  operand : n.kind = .expression .not → (n.child? .operand).isSome = true
  smaller : ∀ c ∈ n.children, c.kind.isLogical = true ∨ c.role = .condition ∨ n.kind.isLogical = true ∨
    n.kind = .expression .parenthesized → c.sect ≠ n.sect

/-- A tree whose nodes all have their children where they belong. -/
inductive Proper (source : Octets) : SyntaxNode → Prop
  | node {n : SyntaxNode} : ProperChildren source n → (∀ c ∈ n.children, Proper source c) → Proper source n

namespace Proper

instance (source : Octets) (n : SyntaxNode) : Decidable (ProperChildren source n) :=
  decidable_of_iff
    ((∀ c ∈ n.children, c.sect.IsIn source ∧ n.sect.contains c.sect = true) ∧
      n.children.Pairwise (fun c d => c.sect.intersects d.sect = false) ∧
      (n.kind.isBlock = true → ∀ c ∈ n.children, n.sect.start < c.sect.start) ∧
      (n.kind = .expression .and ∨ n.kind = .expression .or →
        (n.child? .left).isSome = true ∧ (n.child? .right).isSome = true) ∧
      (n.kind = .expression .not → (n.child? .operand).isSome = true) ∧
      ∀ c ∈ n.children, c.kind.isLogical = true ∨ c.role = .condition ∨ n.kind.isLogical = true ∨
        n.kind = .expression .parenthesized → c.sect ≠ n.sect)
    ⟨fun ⟨each, disjoint, inside, operands, operand, smaller⟩ =>
        ⟨fun c child => (each c child).1, fun c child => (each c child).2, disjoint, inside, operands, operand,
          smaller⟩,
      fun proper => ⟨fun c child => ⟨proper.sections c child, proper.within c child⟩, proper.disjoint,
        proper.inside, proper.operands, proper.operand, proper.smaller⟩⟩

mutual

def decideNode (source : Octets) : (n : SyntaxNode) → Decidable (Proper source n)
  | .node kind role sect children =>
    have := decideEach source children
    decidable_of_iff (ProperChildren source (.node kind role sect children) ∧ ∀ c ∈ children, Proper source c)
      ⟨fun ⟨proper, each⟩ => .node proper each, fun (.node proper each) => ⟨proper, each⟩⟩

def decideEach (source : Octets) : (children : List SyntaxNode) → Decidable (∀ c ∈ children, Proper source c)
  | [] => .isTrue (by simp)
  | n :: rest =>
    have := decideNode source n
    have := decideEach source rest
    decidable_of_iff (Proper source n ∧ ∀ c ∈ rest, Proper source c) List.forall_mem_cons.symm

end

instance (source : Octets) (n : SyntaxNode) : Decidable (Proper source n) := decideNode source n

end Proper

namespace Finder

variable {source : Octets} {policy : DecisionPolicy} {outer : Section} {f g : Finding}
  {findings others : List Finding}

namespace Finding

/-- The sections do not overlap or one lies in the other, and a ledger tells the findings apart. -/
structure Apart (f g : Finding) : Prop where
  distinct : ¬ f.Clashes g
  nested : f.sect.intersects g.sect = false ∨ f.sect.contains g.sect = true ∨ g.sect.contains f.sect = true

theorem Clashes.symm (clashes : f.Clashes g) : g.Clashes f := by
  cases f <;> cases g
  · exact Eq.symm clashes
  · cases clashes
  · cases clashes
  · exact ⟨clashes.1.symm, clashes.2.symm⟩

theorem Apart.symm (apart : f.Apart g) : g.Apart f := by
  refine ⟨fun clashes => apart.distinct clashes.symm, ?_⟩
  have nested := apart.nested
  rw [Section.intersects_eq_false_iff, Section.contains_iff, Section.contains_iff] at *
  omega

/-- Findings with sections that do not overlap are apart. -/
theorem apart_of_disjoint (isIn : f.sect.IsIn source) (isIn' : g.sect.IsIn source)
    (disjoint : f.sect.intersects g.sect = false) : f.Apart g := by
  refine ⟨?_, Or.inl disjoint⟩
  have wide := isIn.toNat_lt
  have wide' := isIn'.toNat_lt
  rw [Section.intersects_eq_false_iff] at disjoint
  cases f with
  | checkpoint sect braced =>
    cases g with
    | checkpoint sect' braced' =>
      intro same
      rw [Clashes, Position.eq_iff_toNat] at same
      simp only [Finding.sect] at *
      omega
    | evaluation sect' kind' => exact id
  | evaluation sect kind =>
    cases g with
    | checkpoint sect' braced' => exact id
    | evaluation sect' kind' =>
      rintro ⟨rfl, _⟩
      simp only [Finding.sect] at *
      omega

end Finding

/-- Findings inside a section that are apart from each other. -/
structure Contained (source : Octets) (outer : Section) (findings : List Finding) : Prop where
  sections : ∀ f ∈ findings, f.sect.IsIn source
  within : ∀ f ∈ findings, outer.contains f.sect = true
  apart : findings.Pairwise Finding.Apart

namespace Contained

theorem nil : Contained source outer [] := ⟨by simp, by simp, .nil⟩

theorem widen {inner : Section} (contained : Contained source inner findings) (wider : outer.contains inner = true) :
    Contained source outer findings := by
  refine ⟨contained.sections, ?_, contained.apart⟩
  intro f member
  have within := contained.within f member
  rw [Section.contains_iff] at *
  omega

theorem cons (isIn : f.sect.IsIn source) (within : outer.contains f.sect = true)
    (contained : Contained source outer findings) (apart : ∀ g ∈ findings, f.Apart g) :
    Contained source outer (f :: findings) :=
  ⟨List.forall_mem_cons.mpr ⟨isIn, contained.sections⟩, List.forall_mem_cons.mpr ⟨within, contained.within⟩,
    .cons apart contained.apart⟩

/-- An evaluation of the whole section besides what is found inside it. -/
theorem evaluation (isIn : outer.IsIn source) (contained : Contained source outer findings) {kind : EvaluationKind}
    (fresh : .evaluation outer kind ∉ findings) : Contained source outer (.evaluation outer kind :: findings) := by
  refine cons isIn (Section.contains_iff.mpr ⟨Nat.le_refl _, Nat.le_refl _⟩) contained ?_
  intro g member
  refine ⟨?_, Or.inr (Or.inl (contained.within g member))⟩
  cases g with
  | checkpoint sect braced => exact id
  | evaluation sect kind' =>
    rintro ⟨rfl, rfl⟩
    exact fresh member

/-- The findings of two places that do not overlap. -/
theorem apart_of_disjoint {left right : Section} (first : Contained source left findings)
    (second : Contained source right others) (disjoint : left.intersects right = false) :
    ∀ f ∈ findings, ∀ g ∈ others, f.Apart g := by
  intro f member g member'
  refine Finding.apart_of_disjoint (first.sections f member) (second.sections g member') ?_
  have within := first.within f member
  have within' := second.within g member'
  rw [Section.contains_iff] at within within'
  rw [Section.intersects_eq_false_iff] at *
  omega

theorem append (first : Contained source outer findings) (second : Contained source outer others)
    (across : ∀ f ∈ findings, ∀ g ∈ others, f.Apart g) : Contained source outer (findings ++ others) :=
  ⟨List.forall_mem_append.mpr ⟨first.sections, second.sections⟩,
    List.forall_mem_append.mpr ⟨first.within, second.within⟩,
    List.pairwise_append.mpr ⟨first.apart, second.apart, across⟩⟩

theorem sublist (contained : Contained source outer findings) (part : others.Sublist findings) :
    Contained source outer others :=
  ⟨fun f member => contained.sections f (part.subset member), fun f member => contained.within f (part.subset member),
    contained.apart.sublist part⟩

theorem perm (contained : Contained source outer findings) (same : findings.Perm others) :
    Contained source outer others :=
  ⟨fun f member => contained.sections f (same.mem_iff.mpr member),
    fun f member => contained.within f (same.mem_iff.mpr member),
    same.pairwise contained.apart fun {_ _} apart => apart.symm⟩

end Contained

/-- The findings of children, each inside its section. -/
theorem contained_flatMap {n : SyntaxNode} (proper : ProperChildren source n) {children : List SyntaxNode}
    (part : children.Sublist n.children) {found : SyntaxNode → List Finding}
    (each : ∀ c ∈ children, Contained source c.sect (found c)) :
    Contained source n.sect (children.flatMap found) := by
  refine ⟨?_, ?_, ?_⟩
  · intro f member
    obtain ⟨c, child, inside⟩ := List.mem_flatMap.mp member
    exact (each c child).sections f inside
  · intro f member
    obtain ⟨c, child, inside⟩ := List.mem_flatMap.mp member
    exact ((each c child).widen (proper.within c (part.subset child))).within f inside
  · refine List.pairwise_flatMap.mpr ⟨fun c child => (each c child).apart, ?_⟩
    refine (proper.disjoint.sublist part).imp_of_mem ?_
    intro c d child child' disjoint f member g member'
    exact (each c child).apart_of_disjoint (each d child') disjoint f member g member'

/-- The findings of a node stay inside its section. Only an operator is evaluated on all of it, and a node that
is nested has its checkpoints behind its start. -/
structure Settled (source : Octets) (policy : DecisionPolicy) (n : SyntaxNode) : Prop where
  node : ∀ executable placement, Contained source n.sect (nodeFindings policy executable placement n)
  smaller : n.kind.isLogical = false → ∀ executable placement, ∀ f ∈ nodeFindings policy executable placement n,
    f.isCheckpoint = false → f.sect ≠ n.sect
  later : ∀ executable, ∀ f ∈ nodeFindings policy executable .nested n, f.isCheckpoint = true →
    n.sect.start < f.sect.start
  root : Contained source n.sect (rootFindings policy n)
  rootLater : ∀ f ∈ rootFindings policy n, f.isCheckpoint = true → n.sect.start < f.sect.start

section Node

variable {n c : SyntaxNode} {placement : Placement}

theorem ChildVisit.contained (visit : ChildVisit policy n placement c findings) (settled : Settled source policy c) :
    Contained source c.sect findings := by
  cases visit with
  | none => exact .nil
  | root _ => exact settled.root
  | node executable inner _ => exact settled.node executable inner

/-- What is found in a child is smaller than the node, unless it is a checkpoint. -/
theorem ChildVisit.smaller (visit : ChildVisit policy n placement c findings) (settled : Settled source policy c)
    (proper : ProperChildren source n) (child : c ∈ n.children) :
    ∀ f ∈ findings, f.isCheckpoint = false → f.sect ≠ n.sect := by
  intro f member evaluation same
  have within := proper.within c child
  have within' := (visit.contained settled).within f member
  have equal : c.sect = n.sect := by
    rw [Section.contains_iff] at within within'
    rw [Section.eq_iff_toNat]
    rw [same] at within'
    omega
  have notSmaller := fun reason => proper.smaller c child reason equal
  cases visit with
  | none => cases member
  | root role => exact notSmaller (Or.inr (Or.inl role))
  | node executable inner _ =>
    cases logical : c.kind.isLogical with
    | true => exact notSmaller (Or.inl logical)
    | false => exact settled.smaller logical executable inner f member evaluation (same.trans equal.symm)

/-- Where a node is nested, what is found in a child has its checkpoints behind the start of the node. -/
theorem ChildVisit.later (visit : ChildVisit policy n .nested c findings) (settled : Settled source policy c)
    (proper : ProperChildren source n) (child : c ∈ n.children) :
    ∀ f ∈ findings, f.isCheckpoint = true → n.sect.start < f.sect.start := by
  intro f member checkpoint
  have within := Section.contains_iff.mp (proper.within c child)
  rw [Position.lt_iff_toNat]
  cases visit with
  | none => cases member
  | root role =>
    have behind := Position.lt_iff_toNat.mp (settled.rootLater f member checkpoint)
    omega
  | node executable inner nested =>
    rcases nested rfl with rfl | block
    · have behind := Position.lt_iff_toNat.mp (settled.later executable f member checkpoint)
      omega
    · have behind := Position.lt_iff_toNat.mp (proper.inside block c child)
      have within' := Section.contains_iff.mp ((settled.node executable inner).within f member)
      omega

theorem Visited.contained (visited : Visited policy n placement findings) (proper : ProperChildren source n)
    (isIn : placement ≠ .nested → n.sect.IsIn source) (settled : ∀ c ∈ n.children, Settled source policy c) :
    Contained source n.sect findings := by
  cases visited with
  | children part each =>
    exact contained_flatMap proper part fun c child => (each c child).contained (settled c (part.subset child))
  | statement braced standing each =>
    have inner := contained_flatMap proper (List.Sublist.refl _) fun c child =>
      (each c child).contained (settled c child)
    refine .cons (isIn standing) (Section.contains_iff.mpr ⟨Nat.le_refl _, Nat.le_refl _⟩) inner ?_
    intro g member
    refine ⟨?_, Or.inr (Or.inl (inner.within g member))⟩
    obtain ⟨c, child, inside⟩ := List.mem_flatMap.mp member
    cases g with
    | evaluation sect kind => exact id
    | checkpoint sect braced' =>
      intro same
      have behind := (each c child).later (settled c child) proper child _ inside rfl
      rw [Finding.Clashes, Position.eq_iff_toNat] at same
      rw [Position.lt_iff_toNat] at behind
      simp only [Finding.sect] at behind
      omega

theorem Visited.smaller (visited : Visited policy n placement findings) (proper : ProperChildren source n)
    (settled : ∀ c ∈ n.children, Settled source policy c) :
    ∀ f ∈ findings, f.isCheckpoint = false → f.sect ≠ n.sect := by
  intro f member evaluation
  cases visited with
  | children part each =>
    obtain ⟨c, child, inside⟩ := List.mem_flatMap.mp member
    exact (each c child).smaller (settled c (part.subset child)) proper (part.subset child) f inside evaluation
  | statement braced _ each =>
    rcases List.mem_cons.mp member with rfl | deeper
    · cases evaluation
    · obtain ⟨c, child, inside⟩ := List.mem_flatMap.mp deeper
      exact (each c child).smaller (settled c child) proper child f inside evaluation

theorem Visited.later (visited : Visited policy n .nested findings) (proper : ProperChildren source n)
    (settled : ∀ c ∈ n.children, Settled source policy c) :
    ∀ f ∈ findings, f.isCheckpoint = true → n.sect.start < f.sect.start := by
  intro f member checkpoint
  cases visited with
  | children part each =>
    obtain ⟨c, child, inside⟩ := List.mem_flatMap.mp member
    exact (each c child).later (settled c (part.subset child)) proper (part.subset child) f inside checkpoint
  | statement braced standing _ => exact absurd rfl standing

/-- The findings of an operand, with or without a mark of its own, lie in it as those of a decision do. -/
theorem operandFindings_sublist (policy : DecisionPolicy) (c : SyntaxNode) :
    (treeFindings policy false (DecisionExpr.ofNode c) ++ insideFindings policy c).Sublist
      (rootFindings policy c) := by
  unfold rootFindings decisionFindings
  cases DecisionExpr.ofNode c with
  | leaf node => exact List.sublist_cons_self _ _
  | not sect operand => exact List.sublist_cons_self _ _
  | join op sect left right =>
    cases policy with
    | leaves => exact List.sublist_cons_self _ _
    | allNodes => exact List.Sublist.refl _

/-- What is found in operands is smaller than the operator. -/
theorem fresh_of_operand (proper : ProperChildren source n) (child : c ∈ n.children)
    (logical : n.kind.isLogical = true) (contained : Contained source c.sect findings) (kind : EvaluationKind) :
    .evaluation n.sect kind ∉ findings := by
  intro member
  have within := Section.contains_iff.mp (proper.within c child)
  have within' := Section.contains_iff.mp (contained.within _ member)
  refine proper.smaller c child (Or.inr (Or.inr (Or.inl logical))) ?_
  rw [Section.eq_iff_toNat]
  simp only [Finding.sect] at within'
  omega

theorem later_of_child (proper : ProperChildren source n) (child : c ∈ n.children)
    (later : ∀ f ∈ findings, f.isCheckpoint = true → c.sect.start < f.sect.start) :
    ∀ f ∈ findings, f.isCheckpoint = true → n.sect.start < f.sect.start := by
  intro f member checkpoint
  have within := Section.contains_iff.mp (proper.within c child)
  have behind := later f member checkpoint
  rw [Position.lt_iff_toNat] at *
  omega

/-- A decision stays inside its node, with its checkpoints behind the start. -/
def SettledRoot (source : Octets) (policy : DecisionPolicy) (n : SyntaxNode) : Prop :=
  Contained source n.sect (rootFindings policy n) ∧
    ∀ f ∈ rootFindings policy n, f.isCheckpoint = true → n.sect.start < f.sect.start

theorem settledRoot_leaf (leaf : IsLeaf n) (isIn : n.sect.IsIn source)
    (node : Contained source n.sect (nodeFindings policy true .nested n))
    (smaller : ∀ f ∈ nodeFindings policy true .nested n, f.isCheckpoint = false → f.sect ≠ n.sect)
    (later : ∀ f ∈ nodeFindings policy true .nested n, f.isCheckpoint = true → n.sect.start < f.sect.start) :
    SettledRoot source policy n := by
  have fresh (kind : EvaluationKind) : .evaluation n.sect kind ∉ nodeFindings policy true .nested n :=
    fun member => smaller _ member rfl rfl
  rw [SettledRoot, rootFindings_leaf leaf]
  refine ⟨((node.evaluation isIn (fresh .condition)).evaluation isIn ?_), ?_⟩
  · simpa using fresh .decision
  · intro f member checkpoint
    rcases List.mem_cons.mp member with rfl | member
    · cases checkpoint
    rcases List.mem_cons.mp member with rfl | member
    · cases checkpoint
    · exact later f member checkpoint

theorem settledRoot_not (kind : n.kind = .expression .not) (operand : n.child? .operand = some c)
    (proper : ProperChildren source n) (isIn : n.sect.IsIn source)
    (settled : ∀ c ∈ n.children, Settled source policy c) : SettledRoot source policy n := by
  have child : c ∈ n.children := List.mem_of_find?_eq_some operand
  have logical : n.kind.isLogical = true := by rw [kind]; rfl
  have part := operandFindings_sublist policy c
  have inner := (settled c child).root.sublist part
  rw [SettledRoot, rootFindings_not kind operand]
  refine ⟨(inner.widen (proper.within c child)).evaluation isIn (fresh_of_operand proper child logical inner _), ?_⟩
  intro f member checkpoint
  rcases List.mem_cons.mp member with rfl | member
  · cases checkpoint
  · exact later_of_child proper child (fun f inside => (settled c child).rootLater f (part.subset inside)) f member
      checkpoint

/-- Children that play different roles do not overlap. -/
theorem disjoint_of_role (proper : ProperChildren source n) {d : SyntaxNode} (child : c ∈ n.children)
    (child' : d ∈ n.children) (different : c.role ≠ d.role) : c.sect.intersects d.sect = false := by
  have symmetric : Std.Symm fun c d : SyntaxNode => c.sect.intersects d.sect = false :=
    ⟨fun _ _ apart => by rw [Section.intersects_eq_false_iff] at *; omega⟩
  exact proper.disjoint.forall child child' fun same => different (same ▸ rfl)

theorem settledRoot_join {l r : SyntaxNode} (kind : n.kind = .expression .and ∨ n.kind = .expression .or)
    (left : n.child? .left = some l) (right : n.child? .right = some r)
    (proper : ProperChildren source n) (isIn : n.sect.IsIn source)
    (settled : ∀ c ∈ n.children, Settled source policy c) : SettledRoot source policy n := by
  have childL : l ∈ n.children := List.mem_of_find?_eq_some left
  have childR : r ∈ n.children := List.mem_of_find?_eq_some right
  have roleL : l.role = .left := by simpa using List.find?_some left
  have roleR : r.role = .right := by simpa using List.find?_some right
  have logical : n.kind.isLogical = true := by rcases kind with kind | kind <;> rw [kind] <;> rfl
  have partL := operandFindings_sublist policy l
  have partR := operandFindings_sublist policy r
  have innerL := (settled l childL).root.sublist partL
  have innerR := (settled r childR).root.sublist partR
  have across := innerL.apart_of_disjoint innerR (disjoint_of_role proper childL childR (by rw [roleL, roleR]; simp))
  have wideL := innerL.widen (proper.within l childL)
  have wideR := innerR.widen (proper.within r childR)
  -- The tree is entered as a whole before the walk goes on inside its conditions.
  have shuffled : ((treeFindings policy false (DecisionExpr.ofNode l) ++ insideFindings policy l) ++
        (treeFindings policy false (DecisionExpr.ofNode r) ++ insideFindings policy r)).Perm
      ((treeFindings policy false (DecisionExpr.ofNode l) ++ treeFindings policy false (DecisionExpr.ofNode r)) ++
        (insideFindings policy l ++ insideFindings policy r)) := by
    rw [List.append_assoc, List.append_assoc]
    exact List.Perm.append_left _ (List.perm_append_comm_assoc _ _ _)
  have both := (wideL.append wideR across).perm shuffled
  have members := fun f => (shuffled.mem_iff (a := f)).symm
  rw [SettledRoot, rootFindings_join kind left right]
  refine ⟨both.evaluation isIn ?_, ?_⟩
  · rw [members, List.mem_append]
    rintro (inside | inside)
    · exact fresh_of_operand proper childL logical innerL _ inside
    · exact fresh_of_operand proper childR logical innerR _ inside
  · intro f member checkpoint
    rcases List.mem_cons.mp member with rfl | member
    · cases checkpoint
    rw [members, List.mem_append] at member
    rcases member with inside | inside
    · exact later_of_child proper childL
        (fun f inside => (settled l childL).rootLater f (partL.subset inside)) f inside checkpoint
    · exact later_of_child proper childR
        (fun f inside => (settled r childR).rootLater f (partR.subset inside)) f inside checkpoint

theorem settledRoot_parenthesized {role : Role} {sect : Section} {inner : SyntaxNode}
    (proper : ProperChildren source (.node (.expression .parenthesized) role sect [inner]))
    (settled : Settled source policy inner) :
    SettledRoot source policy (.node (.expression .parenthesized) role sect [inner]) := by
  have child : inner ∈ SyntaxNode.children (.node (.expression .parenthesized) role sect [inner]) :=
    List.mem_singleton.mpr rfl
  rw [SettledRoot, rootFindings_parenthesized]
  exact ⟨settled.root.widen (proper.within inner child), later_of_child proper child settled.rootLater⟩

theorem not_lacksOperand (proper : ProperChildren source n) : ¬ LacksOperand n := by
  rintro (⟨kind, operand⟩ | ⟨kind, left | right⟩)
  · have present := proper.operand kind
    rw [operand] at present
    cases present
  · have present := (proper.operands kind).1
    rw [left] at present
    cases present
  · have present := (proper.operands kind).2
    rw [right] at present
    cases present

theorem settledRoot_of_children (proper : ProperChildren source n) (isIn : n.sect.IsIn source)
    (settled : ∀ c ∈ n.children, Settled source policy c) : SettledRoot source policy n := by
  cases shape n with
  | leaf leaf =>
    have visited : Visited policy n .nested (nodeFindings policy true .nested n) :=
      visited_nodeFindings (fun _ => leaf.plain) .nested
    exact settledRoot_leaf leaf isIn (visited.contained proper (fun _ => isIn) settled)
      (visited.smaller proper settled) (visited.later proper settled)
  | parenthesized role sect inner =>
    exact settledRoot_parenthesized proper (settled inner (List.mem_singleton.mpr rfl))
  | not kind operand => exact settledRoot_not kind operand proper isIn settled
  | join kind left right => exact settledRoot_join kind left right proper isIn settled
  | lacking lacks => exact absurd lacks (not_lacksOperand proper)

/-- In a proper tree every node below the root is settled. -/
theorem settled_of_proper (proper : Proper source n) (isIn : n.sect.IsIn source) : Settled source policy n := by
  induction proper with
  | @node n proper _ ih =>
    have settled : ∀ c ∈ n.children, Settled source policy c := fun c child => ih c child (proper.sections c child)
    obtain ⟨root, rootLater⟩ := settledRoot_of_children proper isIn settled
    have operator {executable : Bool} (logical : ¬ (executable = true → n.kind.isLogical = false))
        (placement : Placement) : nodeFindings policy executable placement n = rootFindings policy n := by
      simp only [Classical.not_imp, Bool.not_eq_false] at logical
      rw [logical.1, nodeFindings_logical logical.2]
    refine ⟨?_, ?_, ?_, root, rootLater⟩
    · intro executable placement
      by_cases plain : executable = true → n.kind.isLogical = false
      · exact (visited_nodeFindings plain placement).contained proper (fun _ => isIn) settled
      · rw [operator plain]
        exact root
    · intro plain executable placement
      exact (visited_nodeFindings (fun _ => plain) placement).smaller proper settled
    · intro executable
      by_cases plain : executable = true → n.kind.isLogical = false
      · exact (visited_nodeFindings plain .nested).later proper settled
      · rw [operator plain]
        exact rootLater

/-- The findings of a walk over a proper tree are apart, whatever the section of the root. -/
theorem contained_walk (proper : Proper source n) (policy : DecisionPolicy) :
    Contained source n.sect (nodeFindings policy false .nested n) := by
  cases proper with
  | node proper children =>
    have settled : ∀ c ∈ n.children, Settled source policy c := fun c child =>
      settled_of_proper (children c child) (proper.sections c child)
    exact (visited_nodeFindings (by simp) .nested).contained proper (by simp) settled

end Node

end Finder

end SourceCoverage
