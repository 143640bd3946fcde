import SourceCoverage.ConcreteTree
import SourceCoverage.Json.Record

namespace SourceCoverage

namespace ConcreteNode

def natOf? : Json → Option Nat
  | .number n => n.nat?
  | _ => none

def fieldOf (text : String) : Option String := if text.isEmpty then none else some text

mutual

def ofJson? : Json → Option ConcreteNode
  | .array (kind :: field :: flags :: start :: stop :: children) => do
    let kind ← kind.string?
    let field ← field.string?
    let flags ← natOf? flags
    let start ← natOf? start
    let stop ← natOf? stop
    let children ← ofJsons? children
    return .node kind (fieldOf field) (NodeFlags.ofBits flags) start stop children
  | _ => none

def ofJsons? : List Json → Option (List ConcreteNode)
  | [] => some []
  | json :: rest => do
    let n ← ofJson? json
    let others ← ofJsons? rest
    return n :: others

end

end ConcreteNode

end SourceCoverage
