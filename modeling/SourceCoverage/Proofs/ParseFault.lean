import Mathlib.Logic.Relation
import SourceCoverage.Instrumentation

namespace SourceCoverage

namespace ConcreteNode

variable {n m c : ConcreteNode}

/-- Something that the parser did not understand, or that it had to add. -/
def isFaulty (n : ConcreteNode) : Bool := n.flags.error || n.flags.missing

mutual

/-- A node and all that is below it, a node before its children and these from left to right. -/
def preorder : ConcreteNode → List ConcreteNode
  | .node kind field flags start stop children =>
    .node kind field flags start stop children :: preorderEach children

def preorderEach : List ConcreteNode → List ConcreteNode
  | [] => []
  | n :: rest => n.preorder ++ preorderEach rest

end

theorem preorderEach_eq (nodes : List ConcreteNode) : preorderEach nodes = nodes.flatMap preorder := by
  induction nodes with
  | nil => rfl
  | cons n rest ih => rw [preorderEach, ih, List.flatMap_cons]

theorem preorder_eq (n : ConcreteNode) : n.preorder = n :: n.children.flatMap preorder := by
  cases n
  rw [preorder, preorderEach_eq, children]

/-- The flag for faults stands on a node exactly if the node is faulty or has a faulty node below it. -/
def Flagged (n : ConcreteNode) : Prop := ∀ m ∈ n.preorder, m.flags.hasError = m.preorder.any isFaulty

instance (n : ConcreteNode) : Decidable n.Flagged :=
  inferInstanceAs (Decidable (∀ m ∈ n.preorder, m.flags.hasError = m.preorder.any isFaulty))

theorem Flagged.hasError_eq (flagged : n.Flagged) : n.flags.hasError = n.preorder.any isFaulty :=
  flagged n (by simp [preorder_eq n])

theorem Flagged.child (flagged : n.Flagged) (child : c ∈ n.children) : c.Flagged := by
  intro m below
  refine flagged m ?_
  rw [preorder_eq n]
  exact List.mem_cons_of_mem _ (List.mem_flatMap.mpr ⟨c, child, below⟩)

/-- A child into which the search may go. -/
def isSuspect (n : ConcreteNode) : Bool := n.flags.hasError || n.flags.missing

theorem Flagged.isSuspect_eq (flagged : n.Flagged) : n.isSuspect = n.preorder.any isFaulty := by
  rw [isSuspect, flagged.hasError_eq]
  cases missing : n.flags.missing with
  | false => exact Bool.or_false _
  | true => simp [preorder_eq n, isFaulty, missing]

/-- One round of the search: from a node that is not faulty to the first of its children that is suspect. -/
def Descends (n c : ConcreteNode) : Prop := n.isFaulty = false ∧ n.children.find? isSuspect = some c

theorem Descends.mem_children (descends : Descends n c) : c ∈ n.children := List.mem_of_find?_eq_some descends.2

/-- Rounds lead down the tree, so that there are only finitely many. -/
theorem wellFounded_descends : WellFounded (flip Descends) := by
  refine Subrelation.wf (r := InvImage (· < ·) sizeOf) ?_ (InvImage.wf sizeOf Nat.lt_wfRel.wf)
  intro c n descends
  have smaller := List.sizeOf_lt_of_mem descends.mem_children
  cases n
  simp only [children] at smaller
  simp only [InvImage, node.sizeOf_spec]
  omega

/-- The children in front of the one that is gone into have no fault in them. -/
theorem Descends.find?_preorder (descends : Descends n c) (flagged : n.Flagged) :
    n.preorder.find? isFaulty = c.preorder.find? isFaulty := by
  obtain ⟨sound, found⟩ := descends
  obtain ⟨suspect, before, after, children, clear⟩ := List.find?_eq_some_iff_append.mp found
  have inside : (c.preorder.find? isFaulty).isSome := by
    rw [(flagged.child (List.mem_of_find?_eq_some found)).isSuspect_eq] at suspect
    rw [List.find?_isSome]
    exact List.any_eq_true.mp suspect
  have nothing : (before.flatMap preorder).find? isFaulty = none := by
    rw [List.find?_eq_none]
    intro m below
    obtain ⟨d, child, below⟩ := List.mem_flatMap.mp below
    have unsuspected := clear d child
    rw [(flagged.child (children ▸ List.mem_append_left _ child)).isSuspect_eq] at unsuspected
    simp only [Bool.not_eq_true', List.any_eq_false] at unsuspected
    exact unsuspected m below
  rw [preorder_eq n, List.find?_cons_of_neg (by simp [sound]), children, List.flatMap_append, List.flatMap_cons,
    List.find?_append, nothing, Option.none_or, List.find?_append, Option.or_of_isSome inside]

/-- Below a node that is not faulty but has a fault in it, some child is suspect. -/
theorem Flagged.exists_descends (flagged : n.Flagged) (sound : n.isFaulty = false)
    (found : n.preorder.find? isFaulty = some m) : ∃ c, Descends n c := by
  rw [preorder_eq n, List.find?_cons_of_neg (by simp [sound])] at found
  obtain ⟨c, child, below⟩ := List.mem_flatMap.mp (List.mem_of_find?_eq_some found)
  have suspect : c.isSuspect = true := by
    rw [(flagged.child child).isSuspect_eq, List.any_eq_true]
    exact ⟨m, below, List.find?_some found⟩
  obtain ⟨first, goesInto⟩ := Option.isSome_iff_exists.mp (List.find?_isSome.mpr ⟨c, child, suspect⟩)
  exact ⟨first, sound, goesInto⟩

end ConcreteNode

namespace ParseFault

variable {n m c : ConcreteNode}

/-- What is reported about a faulty node. -/
def ofNode (source : Octets) (n : ConcreteNode) : ParseFault where
  position := positionAt source n.start
  message := if n.flags.missing then "missing `" ++ n.kind ++ "`" else "unexpected syntax"

theorem firstAmong_eq (source : Octets) (otherwise : ParseFault) (nodes : List ConcreteNode) :
    firstAmong source otherwise nodes = ((nodes.find? ConcreteNode.isSuspect).map (first source)).getD otherwise := by
  induction nodes with
  | nil => rfl
  | cons n rest ih =>
    rw [firstAmong, ih, List.find?_cons, ← ConcreteNode.isSuspect]
    cases n.isSuspect <;> rfl

theorem first_of_isFaulty (source : Octets) (faulty : n.isFaulty = true) : first source n = ofNode source n := by
  obtain ⟨kind, field, flags, start, stop, children⟩ := n
  simp only [ConcreteNode.isFaulty, ConcreteNode.flags, Bool.or_eq_true] at faulty
  cases missing : flags.missing <;> simp_all [first, ofNode, ConcreteNode.flags, ConcreteNode.kind,
    ConcreteNode.start]

theorem first_of_descends (source : Octets) (descends : n.Descends c) : first source n = first source c := by
  obtain ⟨kind, field, flags, start, stop, children⟩ := n
  obtain ⟨sound, found⟩ := descends
  simp only [ConcreteNode.isFaulty, ConcreteNode.flags, Bool.or_eq_false_iff] at sound
  simp only [ConcreteNode.children] at found
  simp [first, sound, firstAmong_eq, found]

/-- The search goes down to the first faulty node and reports it. -/
theorem first_of_flagged (source : Octets) (flagged : n.Flagged)
    (found : n.preorder.find? ConcreteNode.isFaulty = some m) :
    Relation.ReflTransGen ConcreteNode.Descends n m ∧ first source n = ofNode source m := by
  induction n using ConcreteNode.wellFounded_descends.induction with
  | _ n ih =>
    cases faulty : n.isFaulty with
    | true =>
      rw [ConcreteNode.preorder_eq n, List.find?_cons_of_pos faulty] at found
      cases found
      exact ⟨.refl, first_of_isFaulty source faulty⟩
    | false =>
      obtain ⟨c, descends⟩ := flagged.exists_descends faulty found
      rw [descends.find?_preorder flagged] at found
      obtain ⟨path, reported⟩ := ih c descends (flagged.child descends.mem_children) found
      exact ⟨path.head descends, (first_of_descends source descends).trans reported⟩

end ParseFault

theorem SyntaxNode.ofConcrete_of_flagged (dialect : Dialect) (source : Octets) {root : ConcreteNode}
    (flagged : root.Flagged) : SyntaxNode.ofConcrete dialect source root =
    match root.preorder.find? ConcreteNode.isFaulty with
      | some n => .error (ParseFault.ofNode source n)
      | none => .ok (Lowering.lower ⟨source, dialect⟩ none none root) := by
  rw [SyntaxNode.ofConcrete, flagged.hasError_eq, ← List.isSome_find?]
  cases found : root.preorder.find? ConcreteNode.isFaulty with
  | none => rfl
  | some n =>
    rw [(ParseFault.first_of_flagged source flagged found).2]
    rfl

/-- On a tree that is flagged correctly the search for a fault comes to an end. A text is refused exactly if its tree
has a faulty node, and what is reported is the first of them, to which the search leads. -/
theorem Grammar.ofConcrete_first_fault (parse : Dialect → Octets → Except Failure ConcreteNode) (path : Path)
    (source : Octets) (flags : List String) (tree : ConcreteNode)
    (parsed : parse (Dialect.choose path flags) source = .ok tree) (flagged : tree.Flagged) :
    Acc (flip ConcreteNode.Descends) tree ∧
      ((∃ failure, Grammar.ofConcrete parse path source flags = .error failure) ↔
        ∃ n ∈ tree.preorder, n.isFaulty = true) ∧
      ∀ n, tree.preorder.find? ConcreteNode.isFaulty = some n →
        Relation.ReflTransGen ConcreteNode.Descends tree n ∧
          Grammar.ofConcrete parse path source flags = .error (.unparsable path (positionAt source n.start)
            (if n.flags.missing then "missing `" ++ n.kind ++ "`" else "unexpected syntax")) := by
  have outcome : Grammar.ofConcrete parse path source flags = match tree.preorder.find? ConcreteNode.isFaulty with
      | some n => .error (.unparsable path (ParseFault.ofNode source n).position (ParseFault.ofNode source n).message)
      | none =>
        .ok ⟨Dialect.choose path flags, Lowering.lower ⟨source, Dialect.choose path flags⟩ none none tree⟩ := by
    simp only [Grammar.ofConcrete, parsed, bind, Except.bind, SyntaxNode.ofConcrete_of_flagged _ source flagged]
    cases tree.preorder.find? ConcreteNode.isFaulty <;> rfl
  refine ⟨ConcreteNode.wellFounded_descends.apply tree, ?_, fun n found => ⟨?_, ?_⟩⟩
  · rw [outcome, ← List.find?_isSome]
    cases tree.preorder.find? ConcreteNode.isFaulty <;> simp
  · exact (ParseFault.first_of_flagged source flagged found).1
  · rw [outcome, found]
    rfl

/-- A function whose last declaration has no semicolon, and behind it a brace too many. -/
def ConcreteNode.unfinished : ConcreteNode :=
  .node "translation_unit" none { named := true, hasError := true } 0 19
    [.node "function_definition" none { named := true, hasError := true } 0 17
      [.node "primitive_type" (some "type") { named := true } 0 4 [],
       .node "function_declarator" (some "declarator") { named := true } 5 8 [],
       .node "compound_statement" (some "body") { named := true, hasError := true } 9 17
         [.node "\x7b" none {} 9 10 [],
          .node "declaration" none { named := true, hasError := true } 10 15
            [.node "primitive_type" (some "type") { named := true } 10 13 [],
             .node "identifier" (some "declarator") { named := true } 14 15 [],
             .node ";" none { missing := true, hasError := true } 15 15 []],
          .node "\x7d" none {} 16 17 []]],
     .node "ERROR" none { named := true, error := true, hasError := true } 18 19
       [.node "\x7d" none {} 18 19 []]]

theorem Grammar.ofConcrete_first_fault_unfinished :
    ConcreteNode.unfinished.Flagged ∧ Grammar.ofConcrete (fun _ _ => .ok ConcreteNode.unfinished) ⟨"main.c"⟩
        (Utf8.encode "void f() \x7bint x \x7d\n\x7d") [] =
      .error (.unparsable ⟨"main.c"⟩ ⟨1, 16⟩ "missing `;`") := by
  have flagged : ConcreteNode.unfinished.Flagged := by decide
  have first := Grammar.ofConcrete_first_fault (fun _ _ => .ok ConcreteNode.unfinished) ⟨"main.c"⟩
    (Utf8.encode "void f() \x7bint x \x7d\n\x7d") [] ConcreteNode.unfinished rfl flagged
  exact ⟨flagged, (first.2.2 _ rfl).2⟩

end SourceCoverage
