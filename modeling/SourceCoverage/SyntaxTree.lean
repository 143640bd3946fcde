import SourceCoverage.Position

namespace SourceCoverage

inductive StatementKind where
  | expression
  /-- A lone semicolon. -/
  | empty
  /-- `persistent` variables live longer than the block, or are constants. -/
  | declaration (initialized persistent : Bool)
  | returns
  | jumps
  | throws
deriving DecidableEq, Repr

inductive ControlKind where
  | branch
  | whileLoop
  | doLoop
  | forLoop
  | rangeLoop
  | switch
deriving DecidableEq, Repr

/-- Control statements whose condition is taken as true or false. -/
def ControlKind.isBoolean : ControlKind → Bool
  | branch | whileLoop | doLoop | forLoop => true
  | rangeLoop | switch => false

inductive ExpressionKind where
  | and
  | or
  | not
  /-- A choice between two values; `elvis` is the form whose first value is the condition itself. -/
  | conditional (elvis : Bool)
  | parenthesized
  | other
deriving DecidableEq, Repr

inductive NodeKind where
  | unit
  /-- A function or a lambda; `constant` if it may run at compile time. -/
  | function (constant : Bool)
  | compound
  | statement (kind : StatementKind)
  | control (kind : ControlKind)
  /-- Labels, cases, else branches, attributes and preprocessor blocks. -/
  | container
  | expression (kind : ExpressionKind)
  /-- What must stay constant, and so is never probed. -/
  | constantContext
  | other
deriving DecidableEq, Repr

inductive Role where
  | none
  | condition
  | body
  | consequence
  | alternative
  | initializer
  | update
  | left
  | right
  | operand
deriving DecidableEq, Repr

inductive SyntaxNode where
  | node (kind : NodeKind) (role : Role) (sect : Section) (children : List SyntaxNode)
deriving Repr

namespace SyntaxNode

def kind : SyntaxNode → NodeKind
  | node kind _ _ _ => kind

def role : SyntaxNode → Role
  | node _ role _ _ => role

def sect : SyntaxNode → Section
  | node _ _ sect _ => sect

def children : SyntaxNode → List SyntaxNode
  | node _ _ _ children => children

/-- The first child that plays a role. -/
def child? (n : SyntaxNode) (role : Role) : Option SyntaxNode := n.children.find? (·.role == role)

/-- The expression inside any number of parentheses. -/
def unparenthesized : SyntaxNode → SyntaxNode
  | node (.expression .parenthesized) _ _ [inner] => inner.unparenthesized
  | n => n

end SyntaxNode

end SourceCoverage
