import SourceCoverage.ConcreteTree
import SourceCoverage.Dialect
import SourceCoverage.LineIndex
import SourceCoverage.SyntaxTree
import SourceCoverage.Utf8

namespace SourceCoverage

namespace Lowering

def persistentSpecifiers : List String :=
  ["static", "extern", "thread_local", "_Thread_local", "__thread", "constexpr", "constinit"]

def constantFunctionSpecifiers : List String := ["constexpr", "consteval"]

/-- Kinds whose inside is never evaluated when the program runs, or has to stay constant. -/
def constantKinds : List String :=
  ["preproc_def", "preproc_function_def", "preproc_call", "preproc_include", "static_assert_declaration",
   "enumerator_list", "bitfield_clause", "field_declaration", "template_argument_list",
   "template_parameter_list", "sizeof_expression", "alignof_expression", "offsetof_expression",
   "generic_expression", "decltype", "noexcept", "requires_clause", "requires_expression",
   "concept_definition", "attribute_specifier", "attribute_declaration", "ms_declspec_modifier",
   "alignas_qualifier", "gnu_asm_expression"]

def containerKinds : List String :=
  ["labeled_statement", "case_statement", "else_clause", "attributed_statement", "preproc_if",
   "preproc_ifdef", "preproc_else", "preproc_elif", "preproc_elifdef"]

/-- What a source says, and in which language. -/
structure Context where
  source : Octets
  dialect : Dialect

def text (cx : Context) (n : ConcreteNode) : String :=
  match Utf8.decode (n.text cx.source) with
  | .ok text => text
  | .error _ => ""

/-- A specifier may be a token of its own or stand inside a specifier node. -/
def hasSpecifier (cx : Context) (n : ConcreteNode) (specifiers : List String) : Bool :=
  n.children.any fun child =>
    specifiers.contains child.kind ||
      ((child.kind == "storage_class_specifier" || child.kind == "type_qualifier")
        && specifiers.contains (text cx child))

/-- A branch whose condition has to stay constant. -/
def isConstantBranch (n : ConcreteNode) : Bool :=
  n.children.any fun child => child.kind == "constexpr" || child.kind == "consteval"

/-- Octets of `word` stand somewhere in `text`. -/
def mentions (word : String) (text : String) : Bool :=
  (Octets.indexOf? (Utf8.encode word) (Utf8.encode text)).isSome

def isIntegral (cx : Context) (type : ConcreteNode) : Bool :=
  if type.kind == "primitive_type" || type.kind == "sized_type_specifier" then
    let name := text cx type
    !mentions "float" name && !mentions "double" name
  else type.kind == "placeholder_type_specifier" || type.kind == "enum_specifier"

/-- A constant variable of integral type in C++, whose value may serve as a constant expression. -/
def isConstantLocal (cx : Context) (declarator : ConcreteNode) (above : Option ConcreteNode) : Bool :=
  match above with
  | some declaration =>
    cx.dialect == .cpp && declaration.kind == "declaration"
      && (declarator.childByField? "declarator").any (·.kind == "identifier")
      && hasSpecifier cx declaration ["const"]
      && (declaration.childByField? "type").any (isIntegral cx)
  | none => false

/-- Places that have to stay constant because of where they stand. `above` is what stands over the
parent. -/
def isConstantPlace (cx : Context) (parent : ConcreteNode) (above : Option ConcreteNode) (field : String) :
    Bool :=
  match parent.kind, field with
  | "case_statement", "value" | "preproc_if", "condition" | "preproc_elif", "condition"
  | "array_declarator", "size" => true
  | "if_statement", "condition" => isConstantBranch parent
  | "init_declarator", "value" => isConstantLocal cx parent above
  | _, _ => false

def operator? (n : ConcreteNode) : Option String := (n.childByField? "operator").map (·.kind)

def expressionKind (n : ConcreteNode) : ExpressionKind :=
  match n.kind, operator? n with
  | "binary_expression", some "&&" | "binary_expression", some "and" => .and
  | "binary_expression", some "||" | "binary_expression", some "or" => .or
  | "unary_expression", some "!" | "unary_expression", some "not" => .not
  | "conditional_expression", _ => .conditional (n.childByField? "consequence").isNone
  | "parenthesized_expression", _ => .parenthesized
  | _, _ => .other

/-- The category of a node by its kind. -/
def ordinaryKind (cx : Context) (n : ConcreteNode) : NodeKind :=
  match n.kind with
  | "translation_unit" => .unit
  | "function_definition" => .function (hasSpecifier cx n constantFunctionSpecifiers)
  | "lambda_expression" => .function false
  | "compound_statement" => .compound
  | "expression_statement" => .statement (if n.namedChildren.isEmpty then .empty else .expression)
  | "co_yield_statement" => .statement .expression
  | "declaration" =>
    .statement (.declaration (n.namedChildren.any (·.kind == "init_declarator"))
      (hasSpecifier cx n persistentSpecifiers))
  | "return_statement" | "co_return_statement" => .statement .returns
  | "break_statement" | "continue_statement" | "goto_statement" => .statement .jumps
  | "throw_statement" => .statement .throws
  | "if_statement" => .control .branch
  | "while_statement" => .control .whileLoop
  | "do_statement" => .control .doLoop
  | "for_statement" => .control .forLoop
  | "for_range_loop" => .control .rangeLoop
  | "switch_statement" => .control .switch
  | kind => if kind.endsWith "_expression" then .expression (expressionKind n) else .other

/-- What stands over a node: its parent, and what stands over that. -/
structure Surroundings where
  parent : ConcreteNode
  above : Option ConcreteNode

def classify (cx : Context) (around : Option Surroundings) (field : Option String) (n : ConcreteNode) :
    NodeKind :=
  let constant := match around, field with
    | some around, some field => isConstantPlace cx around.parent around.above field
    | _, _ => false
  if constant || constantKinds.contains n.kind then .constantContext
  else if containerKinds.contains n.kind then .container
  else ordinaryKind cx n

def roleOfField : Option String → Role
  | some "condition" => .condition
  | some "body" => .body
  | some "consequence" => .consequence
  | some "alternative" => .alternative
  | some "initializer" => .initializer
  | some "update" => .update
  | some "left" => .left
  | some "right" => .right
  | some "argument" => .operand
  | _ => .none

/-- The member initializers of a constructor run before its body. -/
def roleOf (kind : String) (field : Option String) : Role :=
  if kind == "field_initializer_list" then .initializer else roleOfField field

def sectionOf (source : Octets) (n : ConcreteNode) : Section :=
  ⟨positionAt source n.start, positionAt source n.stop⟩

/-- The field of a part of a condition clause once it is moved into the control statement. A declaration
used as a condition cannot be enclosed in a probe, so it counts as an initializer. -/
def clauseField (n : ConcreteNode) : String :=
  if n.field == some "value" && n.kind != "declaration" then "condition" else "initializer"

def isKept (n : ConcreteNode) : Bool := n.flags.named && !n.flags.extra

/-- Children have their parent and, of what stands over it, the nearest node. -/
def below (around : Option Surroundings) (n : ConcreteNode) : Surroundings := ⟨n, around.map (·.parent)⟩

mutual

def lower (cx : Context) (around : Option Surroundings) (field : Option String) : ConcreteNode → SyntaxNode
  | .node kind given flags start stop children =>
    let n := ConcreteNode.node kind given flags start stop children
    let category := classify cx around field n
    .node category (roleOf kind field) (sectionOf cx.source n) <|
      if category == .constantContext then [] else lowerEach cx (below around n) children

/-- The parts of a condition clause are moved into the control statement that has it. -/
def lowerEach (cx : Context) (around : Surroundings) : List ConcreteNode → List SyntaxNode
  | [] => []
  | .node kind field flags start stop children :: rest =>
    let n := ConcreteNode.node kind field flags start stop children
    if !isKept n then lowerEach cx around rest
    else if kind == "condition_clause" then lowerClause cx around children ++ lowerEach cx around rest
    else lower cx (some around) field (.node kind field flags start stop children) :: lowerEach cx around rest

def lowerClause (cx : Context) (around : Surroundings) : List ConcreteNode → List SyntaxNode
  | [] => []
  | n :: rest =>
    if isKept n then lower cx (some around) (some (clauseField n)) n :: lowerClause cx around rest
    else lowerClause cx around rest

end

end Lowering

/-- What a parser found wrong first. -/
structure ParseFault where
  position : Position
  message : String
deriving DecidableEq, Repr

namespace ParseFault

mutual

/-- Goes down to the first faulty node, always into the first child that has a fault in it. -/
def first (source : Octets) : ConcreteNode → ParseFault
  | .node kind _ flags start _ children =>
    let position := positionAt source start
    if flags.missing then ⟨position, "missing `" ++ kind ++ "`"⟩
    else if flags.error then ⟨position, "unexpected syntax"⟩
    else firstAmong source ⟨position, "unexpected syntax"⟩ children

def firstAmong (source : Octets) (otherwise : ParseFault) : List ConcreteNode → ParseFault
  | [] => otherwise
  | n :: rest => if n.flags.hasError || n.flags.missing then first source n else firstAmong source otherwise rest

end

end ParseFault

/-- The searchable tree of a concrete one, or its first fault. -/
def SyntaxNode.ofConcrete (dialect : Dialect) (source : Octets) (root : ConcreteNode) :
    Except ParseFault SyntaxNode :=
  if root.flags.hasError then .error (ParseFault.first source root)
  else .ok (Lowering.lower ⟨source, dialect⟩ none none root)

end SourceCoverage
