import SourceCoverage.Octets

namespace SourceCoverage

/-- What a parser says about a node besides its kind. `hasError` is set on a node that is faulty or
contains a faulty node. -/
structure NodeFlags where
  named : Bool := false
  extra : Bool := false
  error : Bool := false
  missing : Bool := false
  hasError : Bool := false
deriving DecidableEq, Repr

/-- The flags as bits, from the lowest on. -/
def NodeFlags.ofBits (bits : Nat) : NodeFlags where
  named := bits.testBit 0
  extra := bits.testBit 1
  error := bits.testBit 2
  missing := bits.testBit 3
  hasError := bits.testBit 4

inductive ConcreteNode where
  | node (kind : String) (field : Option String) (flags : NodeFlags) (start stop : Nat)
      (children : List ConcreteNode)
deriving Repr

namespace ConcreteNode

def kind : ConcreteNode → String
  | node kind _ _ _ _ _ => kind

def field : ConcreteNode → Option String
  | node _ field _ _ _ _ => field

def flags : ConcreteNode → NodeFlags
  | node _ _ flags _ _ _ => flags

def start : ConcreteNode → Nat
  | node _ _ _ start _ _ => start

def stop : ConcreteNode → Nat
  | node _ _ _ _ stop _ => stop

def children : ConcreteNode → List ConcreteNode
  | node _ _ _ _ _ children => children

/-- The first child that has a field name. -/
def childByField? (n : ConcreteNode) (field : String) : Option ConcreteNode :=
  n.children.find? (·.field == some field)

def namedChildren (n : ConcreteNode) : List ConcreteNode := n.children.filter (·.flags.named)

/-- The octets of the source that a node covers. -/
def text (n : ConcreteNode) (source : Octets) : Octets := (source.drop n.start).take (n.stop - n.start)

end ConcreteNode

end SourceCoverage
