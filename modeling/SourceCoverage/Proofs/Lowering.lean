import Mathlib.Data.List.Pairwise
import SourceCoverage.Lowering
import SourceCoverage.Proofs.LineIndex

namespace SourceCoverage

/-- Of two ways that part, the first goes on to the left of the second. -/
inductive LeftOf : List Nat → List Nat → Prop
  | turn {i j : Nat} {way way' : List Nat} : i < j → LeftOf (i :: way) (j :: way')
  | along {i : Nat} {way way' : List Nat} : LeftOf way way' → LeftOf (i :: way) (i :: way')

/-- Ways that have parted do not meet again. -/
theorem LeftOf.append_ne {way way' : List Nat} (left : LeftOf way way') (rest rest' : List Nat) :
    way ++ rest ≠ way' ++ rest' := by
  induction left with
  | turn before =>
    intro same
    exact before.ne (List.cons.inj same).1
  | along _ ih =>
    intro same
    exact ih (List.cons.inj same).2

/-- The node that a way leads to. -/
def SyntaxNode.descendant? : SyntaxNode → List Nat → Option SyntaxNode
  | n, [] => some n
  | n, i :: way => n.children[i]?.bind fun c => c.descendant? way

namespace ConcreteNode

variable {n m : ConcreteNode} {way way' : List Nat}

/-- The node that a way leads to. -/
def descendant? : ConcreteNode → List Nat → Option ConcreteNode
  | n, [] => some n
  | n, i :: way => n.children[i]?.bind fun c => c.descendant? way

theorem descendant?_append (n : ConcreteNode) (way way' : List Nat) :
    n.descendant? (way ++ way') = (n.descendant? way).bind fun m => m.descendant? way' := by
  induction way generalizing n with
  | nil => rfl
  | cons i way ih =>
    simp only [List.cons_append, descendant?]
    cases n.children[i]? with
    | none => rfl
    | some c => exact ih c

/-- The octets of the children lie inside those of the node, one child behind the other. -/
structure NestedChildren (n : ConcreteNode) : Prop where
  ordered : n.start ≤ n.stop
  within : ∀ c ∈ n.children, n.start ≤ c.start ∧ c.stop ≤ n.stop
  apart : n.children.Pairwise fun c d => c.stop ≤ d.start

/-- A tree whose nodes all have their children inside them, one behind the other. -/
inductive Nests : ConcreteNode → Prop
  | node {n : ConcreteNode} : NestedChildren n → (∀ c ∈ n.children, Nests c) → Nests n

instance (n : ConcreteNode) : Decidable (NestedChildren n) :=
  decidable_of_iff
    (n.start ≤ n.stop ∧ (∀ c ∈ n.children, n.start ≤ c.start ∧ c.stop ≤ n.stop) ∧
      n.children.Pairwise fun c d => c.stop ≤ d.start)
    ⟨fun ⟨ordered, within, apart⟩ => ⟨ordered, within, apart⟩,
      fun ⟨ordered, within, apart⟩ => ⟨ordered, within, apart⟩⟩

namespace Nests

mutual

def decideNode : (n : ConcreteNode) → Decidable n.Nests
  | .node kind field flags start stop children =>
    have := decideEach children
    decidable_of_iff (NestedChildren (.node kind field flags start stop children) ∧ ∀ c ∈ children, c.Nests)
      ⟨fun ⟨nested, each⟩ => .node nested each, fun (.node nested each) => ⟨nested, each⟩⟩

def decideEach : (children : List ConcreteNode) → Decidable (∀ c ∈ children, c.Nests)
  | [] => .isTrue (by simp)
  | n :: rest =>
    have := decideNode n
    have := decideEach rest
    decidable_of_iff (n.Nests ∧ ∀ c ∈ rest, c.Nests) List.forall_mem_cons.symm

end

instance (n : ConcreteNode) : Decidable n.Nests := decideNode n

theorem nested (nests : n.Nests) : NestedChildren n := by
  cases nests with
  | node nested _ => exact nested

theorem child {i : Nat} (nests : n.Nests) (atI : n.children[i]? = some m) : m.Nests := by
  cases nests with
  | node _ each => exact each m (List.mem_of_getElem? atI)

/-- What is below a node nests too, and lies inside it. -/
theorem descendant (nests : n.Nests) (leads : n.descendant? way = some m) :
    m.Nests ∧ n.start ≤ m.start ∧ m.stop ≤ n.stop := by
  induction way generalizing n with
  | nil =>
    cases leads
    exact ⟨nests, Nat.le_refl _, Nat.le_refl _⟩
  | cons i way ih =>
    obtain ⟨c, atI, leads⟩ := Option.bind_eq_some_iff.mp leads
    obtain ⟨nests', after, before⟩ := ih (nests.child atI) leads
    have within := nests.nested.within c (List.mem_of_getElem? atI)
    exact ⟨nests', by omega, by omega⟩

/-- A node on a way further left ends before one on a way further right starts. -/
theorem stop_le_start {l r : ConcreteNode} (nests : n.Nests) (left : LeftOf way way')
    (leads : n.descendant? way = some l) (leads' : n.descendant? way' = some r) : l.stop ≤ r.start := by
  induction left generalizing n with
  | @turn i j way way' before =>
    obtain ⟨c, atI, leads⟩ := Option.bind_eq_some_iff.mp leads
    obtain ⟨d, atJ, leads'⟩ := Option.bind_eq_some_iff.mp leads'
    have inside := (nests.child atI).descendant leads
    have inside' := (nests.child atJ).descendant leads'
    obtain ⟨boundI, rfl⟩ := List.getElem?_eq_some_iff.mp atI
    obtain ⟨boundJ, rfl⟩ := List.getElem?_eq_some_iff.mp atJ
    have apart := List.pairwise_iff_getElem.mp nests.nested.apart i j boundI boundJ before
    omega
  | along _ ih =>
    obtain ⟨c, atI, leads⟩ := Option.bind_eq_some_iff.mp leads
    obtain ⟨d, atI', leads'⟩ := Option.bind_eq_some_iff.mp leads'
    obtain rfl := Option.some.inj (atI.symm.trans atI')
    exact ih (nests.child atI) leads leads'

end Nests

end ConcreteNode

namespace Lowering

/-- A concrete node that is kept below another one: the way to it, and the field by which it is lowered. -/
structure Kept where
  way : List Nat
  field : Option String
  node : ConcreteNode

/-- What is kept of part `j` of a condition clause that itself is child `i`. -/
def keptPart (i : Nat) (d : ConcreteNode) (j : Nat) : Option Kept :=
  if isKept d then some ⟨[i, j], some (clauseField d), d⟩ else none

/-- What is kept of child `i`. -/
def keptChild (c : ConcreteNode) (i : Nat) : List Kept :=
  if !isKept c then []
  else if c.kind == "condition_clause" then c.children.zipIdx.filterMap fun d => keptPart i d.1 d.2
  else [⟨[i], c.field, c⟩]

/-- What is kept below a node, in the order of the children. -/
def kept (n : ConcreteNode) : List Kept := n.children.zipIdx.flatMap fun c => keptChild c.1 c.2

def lowerKept (cx : Context) (around : Surroundings) (k : Kept) : SyntaxNode := lower cx (some around) k.field k.node

variable {cx : Context} {around : Option Surroundings} {field : Option String} {n m : ConcreteNode} {k : Kept}
  {way way' : List Nat} {low low' : SyntaxNode}

section Kept

theorem keptPart_eq_some_iff {d : ConcreteNode} {i j : Nat} :
    keptPart i d j = some k ↔ isKept d = true ∧ ⟨[i, j], some (clauseField d), d⟩ = k := by
  simp [keptPart, Option.ite_none_right_eq_some]

/-- A kept node is a child, or a part of a child. -/
theorem mem_keptChild {c : ConcreteNode} {i : Nat} (member : k ∈ keptChild c i) :
    isKept k.node = true ∧ ∃ way, k.way = i :: way ∧ c.descendant? way = some k.node := by
  unfold keptChild at member
  split at member
  · cases member
  rename_i isKept
  split at member
  · obtain ⟨⟨d, j⟩, part, keeps⟩ := List.mem_filterMap.mp member
    obtain ⟨isKept', rfl⟩ := keptPart_eq_some_iff.mp keeps
    have atJ : c.children[j]? = some d := List.mem_zipIdx_iff_getElem?.mp part
    exact ⟨isKept', [j], rfl, by simp [ConcreteNode.descendant?, atJ]⟩
  · obtain rfl := List.mem_singleton.mp member
    exact ⟨by simpa using isKept, [], rfl, rfl⟩

theorem mem_kept (member : k ∈ kept n) :
    isKept k.node = true ∧ k.way ≠ [] ∧ n.descendant? k.way = some k.node := by
  obtain ⟨⟨c, i⟩, child, member⟩ := List.mem_flatMap.mp member
  obtain ⟨isKept, way, ways, leads⟩ := mem_keptChild member
  have atI : n.children[i]? = some c := List.mem_zipIdx_iff_getElem?.mp child
  refine ⟨isKept, by simp [ways], ?_⟩
  rw [ways, ConcreteNode.descendant?, atI]
  exact leads

theorem pairwise_zipIdx (children : List ConcreteNode) : children.zipIdx.Pairwise fun c d => c.2 < d.2 := by
  rw [List.pairwise_iff_getElem]
  intro i j _ _ before
  simpa using before

/-- The ways to what is kept turn off from left to right. -/
theorem pairwise_kept (n : ConcreteNode) : (kept n).Pairwise fun k l => LeftOf k.way l.way := by
  refine List.pairwise_flatMap.mpr ⟨?_, (pairwise_zipIdx n.children).imp ?_⟩
  · rintro ⟨c, i⟩ -
    unfold keptChild
    split
    · exact .nil
    split
    · -- The ways to the parts of a clause part only behind the clause.
      refine (pairwise_zipIdx c.children).filterMap _ ?_
      intro part part' before k keeps l keeps'
      obtain ⟨_, rfl⟩ := keptPart_eq_some_iff.mp keeps
      obtain ⟨_, rfl⟩ := keptPart_eq_some_iff.mp keeps'
      exact .along (.turn before)
    · exact List.pairwise_singleton _ _
  · intro c d before k member l member'
    obtain ⟨_, way, ways, _⟩ := mem_keptChild member
    obtain ⟨_, way', ways', _⟩ := mem_keptChild member'
    rw [ways, ways']
    exact .turn before

/-- Ways through different kept nodes do not meet. -/
theorem kept_unique {i j : Nat} {l : Kept} (atI : (kept n)[i]? = some k) (atJ : (kept n)[j]? = some l)
    {rest rest' : List Nat} (same : k.way ++ rest = l.way ++ rest') : i = j := by
  obtain ⟨boundI, rfl⟩ := List.getElem?_eq_some_iff.mp atI
  obtain ⟨boundJ, rfl⟩ := List.getElem?_eq_some_iff.mp atJ
  have left := List.pairwise_iff_getElem.mp (pairwise_kept n)
  rcases Nat.lt_trichotomy i j with before | same' | after
  · exact absurd same ((left i j boundI boundJ before).append_ne _ _)
  · exact same'
  · exact absurd same.symm ((left j i boundJ boundI after).append_ne _ _)

end Kept

section Children

theorem lowerClause_eq (cx : Context) (around : Surroundings) (i : Nat) (children : List ConcreteNode) (j : Nat) :
    lowerClause cx around children =
      ((children.zipIdx j).filterMap fun d => keptPart i d.1 d.2).map (lowerKept cx around) := by
  induction children generalizing j with
  | nil => simp [lowerClause]
  | cons n rest ih =>
    rw [lowerClause, List.zipIdx_cons, List.filterMap_cons, ih (j + 1)]
    by_cases keeps : isKept n = true <;> simp [keptPart, keeps, lowerKept]

theorem lowerEach_eq (cx : Context) (around : Surroundings) (children : List ConcreteNode) (i : Nat) :
    lowerEach cx around children =
      ((children.zipIdx i).flatMap fun c => keptChild c.1 c.2).map (lowerKept cx around) := by
  -- What is lowered does not depend on the indices, which may start anywhere.
  induction children generalizing i with
  | nil => simp [lowerEach]
  | cons n rest ih =>
    obtain ⟨kind, field, flags, start, stop, children⟩ := n
    rw [lowerEach, List.zipIdx_cons, List.flatMap_cons, List.map_append, ← ih (i + 1)]
    rw [keptChild, ConcreteNode.kind, ConcreteNode.children, lowerClause_eq cx around i children 0]
    split
    · rfl
    split <;> rfl

theorem kind_lower : (lower cx around field n).kind = classify cx around field n := by
  cases n
  rw [lower]
  rfl

theorem sect_lower : (lower cx around field n).sect = sectionOf cx.source n := by
  cases n
  rw [lower]
  rfl

/-- Below a lowered node stands what is kept below its origin, unless it has to stay constant. -/
theorem children_lower : (lower cx around field n).children =
    if (lower cx around field n).kind = .constantContext then []
    else (kept n).map (lowerKept cx (below around n)) := by
  rw [kind_lower]
  cases n
  rw [lower, kept, ← lowerEach_eq]
  simp only [SyntaxNode.children, beq_iff_eq]
  rfl

theorem exists_kept {i : Nat} (atI : (lower cx around field n).children[i]? = some low) :
    ∃ k, (kept n)[i]? = some k ∧ lowerKept cx (below around n) k = low := by
  rw [children_lower] at atI
  split at atI
  · cases atI
  · simpa using atI

end Children

section Origin

/-- The way below `n` to the origin of the node that a way leads to in the lowered `n`. -/
def origin : ConcreteNode → List Nat → List Nat
  | _, [] => []
  | n, i :: way =>
    match (kept n)[i]? with
    | some k => k.way ++ origin k.node way
    | none => []

/-- A way into a lowered node goes on from something that is kept. -/
theorem descendant?_lower {i : Nat} (leads : (lower cx around field n).descendant? (i :: way) = some low) :
    ∃ k, (kept n)[i]? = some k ∧ origin n (i :: way) = k.way ++ origin k.node way ∧
      (lower cx (some (below around n)) k.field k.node).descendant? way = some low := by
  obtain ⟨c, atI, leads⟩ := Option.bind_eq_some_iff.mp leads
  obtain ⟨k, atK, rfl⟩ := exists_kept atI
  exact ⟨k, atK, by rw [origin, atK], leads⟩

/-- A lowered node is its origin, lowered. -/
theorem lower_origin (leads : (lower cx around field n).descendant? way = some low) :
    ∃ m around' field', n.descendant? (origin n way) = some m ∧ low = lower cx around' field' m ∧
      (way = [] ∨ isKept m = true) := by
  induction way generalizing n around field with
  | nil =>
    cases leads
    exact ⟨n, around, field, rfl, rfl, Or.inl rfl⟩
  | cons i way ih =>
    obtain ⟨k, atK, origins, leads⟩ := descendant?_lower leads
    obtain ⟨isKept, _, toK⟩ := mem_kept (List.mem_of_getElem? atK)
    obtain ⟨m, around', field', toM, rfl, inner⟩ := ih leads
    refine ⟨m, around', field', ?_, rfl, Or.inr ?_⟩
    · rw [origins, ConcreteNode.descendant?_append, toK]
      exact toM
    · rcases inner with rfl | isKept'
      · cases toM
        exact isKept
      · exact isKept'

theorem origin_ne_nil {i : Nat} (leads : (lower cx around field n).descendant? (i :: way) = some low) :
    origin n (i :: way) ≠ [] := by
  obtain ⟨k, atI, origins, _⟩ := descendant?_lower leads
  simp [origins, (mem_kept (List.mem_of_getElem? atI)).2.1]

/-- Different lowered nodes have different origins. -/
theorem origin_injective (leads : (lower cx around field n).descendant? way = some low)
    (leads' : (lower cx around field n).descendant? way' = some low') (same : origin n way = origin n way') :
    way = way' := by
  induction way generalizing n around field way' with
  | nil =>
    cases way' with
    | nil => rfl
    | cons j way' => exact absurd same.symm (origin_ne_nil leads')
  | cons i way ih =>
    cases way' with
    | nil => exact absurd same (origin_ne_nil leads)
    | cons j way' =>
      obtain ⟨k, atI, origins, inner⟩ := descendant?_lower leads
      obtain ⟨l, atJ, origins', inner'⟩ := descendant?_lower leads'
      rw [origins, origins'] at same
      obtain rfl : i = j := kept_unique atI atJ same
      obtain rfl := Option.some.inj (atI.symm.trans atJ)
      rw [ih inner inner' (List.append_cancel_left same)]

end Origin

section Exact

/-- A lowered node stands where its origin stands, and so do its children, which are what is kept below the
origin. A constant context has none. -/
structure IsExact (source : Octets) (n : ConcreteNode) (low : SyntaxNode) : Prop where
  start : (LineIndex.ofText source).offset? low.sect.start = some n.start
  stop : (LineIndex.ofText source).offset? low.sect.stop = some n.stop
  within : ∀ c ∈ low.children, low.sect.contains c.sect = true
  apart : low.children.Pairwise fun c d => c.sect.stop ≤ d.sect.start
  children : low.kind ≠ .constantContext →
    low.children.map (·.sect) = (kept n).map fun k => sectionOf source k.node
  constant : low.kind = .constantContext → low.children = []

theorem mem_children_lower {c : SyntaxNode} (child : c ∈ (lower cx around field n).children) :
    ∃ k ∈ kept n, c.sect = sectionOf cx.source k.node := by
  obtain ⟨i, atI⟩ := List.mem_iff_getElem?.mp child
  obtain ⟨k, atK, rfl⟩ := exists_kept atI
  exact ⟨k, List.mem_of_getElem? atK, sect_lower⟩

theorem isExact_lower (cx : Context) (short : cx.source.length < 4294967295) (nests : n.Nests)
    (inside : n.stop ≤ cx.source.length) :
    IsExact cx.source n (lower cx around field n) := by
  have ordered := nests.nested.ordered
  refine ⟨?_, ?_, ?_, ?_, ?_, ?_⟩
  · rw [sect_lower]
    exact offset?_positionAt short (ordered.trans inside)
  · rw [sect_lower]
    exact offset?_positionAt short inside
  · intro c child
    obtain ⟨k, member, sect⟩ := mem_children_lower child
    obtain ⟨nests', after, before⟩ := nests.descendant (mem_kept member).2.2
    have ordered' := nests'.nested.ordered
    rw [sect, sect_lower]
    rw [Section.contains, Bool.and_eq_true]
    exact ⟨decide_eq_true (positionAt_le short (by omega) after), decide_eq_true (positionAt_le short inside before)⟩
  · rw [children_lower]
    split
    · exact .nil
    refine List.pairwise_map.mpr ((pairwise_kept n).imp_of_mem ?_)
    intro k l member member' left
    have toL := (mem_kept member').2.2
    have apart := nests.stop_le_start left (mem_kept member).2.2 toL
    obtain ⟨nests', _, before⟩ := nests.descendant toL
    have ordered' := nests'.nested.ordered
    rw [lowerKept, lowerKept, sect_lower, sect_lower]
    exact positionAt_le short (by omega) apart
  · intro executable
    rw [children_lower, if_neg executable, List.map_map]
    exact List.map_congr_left fun k _ => sect_lower
  · intro constant
    rw [children_lower, if_pos constant]

end Exact

/-- A tree without faults is lowered, and exactly so: every node below the root comes from a named node that is no
comment, no two come from the same one, and all stand where their origins stand. -/
theorem ofConcrete_exact (dialect : Dialect) (source : Octets) (root : ConcreteNode)
    (short : source.length < 4294967295) (faultless : root.flags.hasError = false) (nests : root.Nests)
    (inside : root.stop ≤ source.length) :
    ∃ lowered, SyntaxNode.ofConcrete dialect source root = .ok lowered ∧
      (∀ way low, lowered.descendant? way = some low →
        ∃ n around field, root.descendant? (origin root way) = some n ∧ low = lower ⟨source, dialect⟩ around field n ∧
          (way ≠ [] → n.flags.named = true ∧ n.flags.extra = false) ∧ IsExact source n low) ∧
      ∀ way way' low low', lowered.descendant? way = some low → lowered.descendant? way' = some low' →
        origin root way = origin root way' → way = way' := by
  refine ⟨lower ⟨source, dialect⟩ none none root, ?_, ?_, ?_⟩
  · rw [SyntaxNode.ofConcrete, faultless]
    rfl
  · intro way low leads
    obtain ⟨n, around, field, toN, rfl, keeps⟩ := lower_origin leads
    obtain ⟨nests', _, before⟩ := nests.descendant toN
    refine ⟨n, around, field, toN, rfl, ?_, isExact_lower ⟨source, dialect⟩ short nests' (before.trans inside)⟩
    intro below
    simpa [isKept] using keeps.resolve_left below
  · intro way way' low low' leads leads' same
    exact origin_injective leads leads' same

/-- The branch `if(x;y)` with a comment behind it and its statement on the next line. -/
def initializedBranch : ConcreteNode :=
  let token (kind : String) (start : Nat) := ConcreteNode.node kind none {} start (start + kind.length) []
  let name (field : Option String) (start : Nat) :=
    ConcreteNode.node "identifier" field { named := true } start (start + 1) []
  .node "translation_unit" none { named := true } 0 12 [
    .node "if_statement" none { named := true } 0 12 [
      token "if" 0,
      .node "condition_clause" (some "condition") { named := true } 2 7 [
        token "(" 2,
        .node "init_statement" (some "initializer") { named := true } 3 5 [name none 3, token ";" 4],
        name (some "value") 5,
        token ")" 6],
      .node "comment" none { named := true, extra := true } 7 9 [],
      .node "expression_statement" (some "consequence") { named := true } 10 12 [name none 10, token ";" 11]]]

theorem ofConcrete_exact_initializedBranch :
    ∃ lowered condition, SyntaxNode.ofConcrete .cpp (Utf8.encode "if(x;y)//\nz;") initializedBranch = .ok lowered ∧
      lowered.descendant? [0, 1] = some condition ∧ condition.role = .condition ∧
      (LineIndex.ofText (Utf8.encode "if(x;y)//\nz;")).offset? condition.sect.start = some 5 ∧
      (LineIndex.ofText (Utf8.encode "if(x;y)//\nz;")).offset? condition.sect.stop = some 6 := by
  obtain ⟨lowered, accepted, each, _⟩ := ofConcrete_exact .cpp (Utf8.encode "if(x;y)//\nz;") initializedBranch
    (by decide) rfl (by decide) (by decide)
  have role : (lowered.descendant? [0, 1]).map (·.role) = some .condition := by
    cases accepted
    decide
  obtain ⟨condition, leads, role⟩ := Option.map_eq_some_iff.mp role
  obtain ⟨n, _, _, toN, _, _, exact⟩ := each [0, 1] condition leads
  cases toN
  exact ⟨lowered, condition, accepted, leads, role, exact.start, exact.stop⟩

end Lowering

end SourceCoverage
