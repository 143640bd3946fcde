import SourceCoverage.Decision.Registration

namespace SourceCoverage.Finder

/-- Where a statement stands. -/
inductive Placement where
  /-- In a block, where a statement may be put in front of it. -/
  | blockItem
  /-- As the whole body of a control statement, where a probe needs braces. -/
  | body
  | nested
deriving DecidableEq, Repr

inductive Step where
  | checkpoint (sect : Section) (braced : Bool)
  /-- Enters a decision and, once it is entered, goes on inside its conditions. -/
  | decision (expr : DecisionExpr) (inside : List Step)
  /-- The visit of one node, which is left out after a failure. -/
  | visit (steps : List Step)
deriving Repr

/-- What visiting a node does: as a node, in or out of running code, and as the root of a decision,
inside whose conditions the walk goes on. -/
structure Visits where
  asNode : (executable : Bool) → Placement → List Step
  insideDecision : List Step

/-- The children of a node, each with what visiting it does. -/
abbrev Children := List (SyntaxNode × Visits)

namespace Children

def each (children : Children) (executable : Bool) (placement : Placement) : List Step :=
  children.map fun (_, visits) => .visit (visits.asNode executable placement)

/-- The first child that plays a role, as part of a decision. -/
def insideFirst? (children : Children) (role : Role) : Option (List Step) :=
  (children.find? (·.1.role == role)).map (·.2.insideDecision)

/-- A function runs its member initializers and its body, but not its signature. -/
def ofFunction (children : Children) : List Step :=
  each (children.filter fun (n, _) => n.role == .initializer || n.role == .body) true .nested

def asDecision (n : SyntaxNode) (visits : Visits) : List Step :=
  [.decision (DecisionExpr.ofNode n) visits.insideDecision]

def ofControl (children : Children) (kind : ControlKind) : List Step :=
  children.flatMap fun (n, visits) =>
    if n.role == .condition && kind.isBoolean then
      if n.kind == .constantContext then [] else asDecision n visits
    else if n.role == .body || n.role == .consequence || n.role == .alternative then
      [.visit (visits.asNode true .body)]
    else [.visit (visits.asNode true .nested)]

def ofConditional (children : Children) (elvis : Bool) : List Step :=
  children.flatMap fun (n, visits) =>
    if n.role == .condition && !elvis then asDecision n visits
    else [.visit (visits.asNode true .nested)]

end Children

/-- Statements that are probed where they stand in a block or as a body. -/
def isProbed : StatementKind → Bool
  | .declaration initialized _ => initialized
  | .empty => false
  | .expression | .returns | .jumps | .throws => true

/-- Statements inside which nothing is probed. -/
def isInert : StatementKind → Bool
  | .empty => true
  | .declaration _ persistent => persistent
  | .expression | .returns | .jumps | .throws => false

def checkpointSteps (kind : StatementKind) (placement : Placement) (sect : Section) : List Step :=
  if isProbed kind then
    match placement with
    | .blockItem => [.checkpoint sect false]
    | .body => [.checkpoint sect true]
    | .nested => []
  else []

/-- The steps inside a decision rooted at a node that is not in parentheses. An operator that lacks an
operand is its own condition; to visit it is to enter the same decision again, which the ledger
refuses, so nothing is left to do inside it. -/
def insideDecisionAt (n : SyntaxNode) (children : Children) (asNode : List Step) : List Step :=
  let again := [Step.visit [.decision (.leaf n) []]]
  match n.kind with
  | .expression .not => (children.insideFirst? .operand).getD again
  | .expression .and | .expression .or =>
    match children.insideFirst? .left, children.insideFirst? .right with
    | some left, some right => left ++ right
    | _, _ => again
  | _ => [.visit asNode]

namespace Visits

/-- The steps inside a decision rooted at `n`, given what it does as a node of running code. -/
def inside (n : SyntaxNode) (children : Children) (asNode : List Step) : List Step :=
  match n.kind, children with
  | .expression .parenthesized, [(_, inner)] => inner.insideDecision
  | _, _ => insideDecisionAt n children asNode

/-- The steps of a node in running code. An operator is a decision of its own; its other children are
visited only as far as they belong to one of its conditions. -/
def running (n : SyntaxNode) (children : Children) (placement : Placement) : List Step :=
  match n.kind with
  | .constantContext => []
  | .function constant => if constant then [] else children.ofFunction
  | .compound => children.each true .blockItem
  | .container => children.each true placement
  | .statement kind =>
    if isInert kind then [] else checkpointSteps kind placement n.sect ++ children.each true .nested
  | .control kind => children.ofControl kind
  | .expression .and | .expression .or | .expression .not =>
    [.decision (DecisionExpr.ofNode n) (insideDecisionAt n children [])]
  | .expression (.conditional elvis) => children.ofConditional elvis
  | .expression .parenthesized | .expression .other | .unit | .other => children.each true .nested

/-- Outside running code only functions matter. -/
def resting (n : SyntaxNode) (children : Children) : List Step :=
  match n.kind with
  | .constantContext => []
  | .function constant => if constant then [] else children.ofFunction
  | _ => children.each false .nested

/-- What visiting a node does, given what visiting its children does. -/
def ofNode (n : SyntaxNode) (children : Children) : Visits where
  asNode executable placement := if executable then running n children placement else resting n children
  insideDecision := inside n children (running n children .nested)

end Visits

mutual

def visits : SyntaxNode → Visits
  | .node kind role sect children => Visits.ofNode (.node kind role sect children) (visitsEach children)

def visitsEach : List SyntaxNode → Children
  | [] => []
  | n :: rest => (n, visits n) :: visitsEach rest

end

/-- What a walk has done so far. The first failure is the one that is reported. -/
structure Walk where
  ledger : Ledger
  checkpoints : Nat := 0
  decisions : Nat := 0
  failure : Option Duplicate := none

def Walk.fail (walk : Walk) (duplicate : Duplicate) : Walk :=
  { walk with failure := walk.failure.or (some duplicate) }

mutual

/-- After a failure no node is visited any more, but the remaining conditions of the control statements
and choices that the walk is in are still entered. -/
def Step.run (policy : DecisionPolicy) : Step → Walk → Walk
  | .checkpoint sect braced, walk =>
    match (Registration.checkpoint sect.start (if braced then some sect.stop else none)).run walk.ledger with
    | (.ok _, ledger) => { walk with ledger, checkpoints := walk.checkpoints + 1 }
    | (.error duplicate, ledger) => { walk with ledger }.fail duplicate
  | .decision expr inside, walk =>
    match (Registration.decision policy expr).run walk.ledger with
    | (.ok _, ledger) => runAll policy inside { walk with ledger, decisions := walk.decisions + 1 }
    | (.error duplicate, ledger) => { walk with ledger }.fail duplicate
  | .visit steps, walk => if walk.failure.isSome then walk else runAll policy steps walk

def runAll (policy : DecisionPolicy) : List Step → Walk → Walk
  | [], walk => walk
  | step :: steps, walk => runAll policy steps (step.run policy walk)

end

/-- Enters every marker of a tree into a ledger. -/
def walk (policy : DecisionPolicy) (root : SyntaxNode) (ledger : Ledger) : Walk :=
  (Step.visit ((visits root).asNode false .nested)).run policy { ledger }

end SourceCoverage.Finder
