namespace SourceCoverage

namespace Toml

/-- How a table came to be. -/
inductive Origin where
  | header
  /-- Named on the way to a table that a header opened. -/
  | implied
  | dotted
  | inline
deriving DecidableEq, Repr

inductive Value where
  | string (text : String)
  | integer (value : Int)
  | boolean (value : Bool)
  /-- A number with a fraction or an exponent. -/
  | float (text : String)
  /-- A date, a time or both. -/
  | instant (text : String)
  | array (items : List Value)
  | table (origin : Origin) (fields : List (String × Value))
  /-- Tables under a header in double brackets. -/
  | tables (items : List (List (String × Value)))
deriving Repr

abbrev Fields := List (String × Value)

namespace Fields

def set (name : String) (value : Value) : Fields → Fields
  | [] => [(name, value)]
  | (other, old) :: rest => if other == name then (name, value) :: rest else (other, old) :: set name value rest

/-- Changes the last table of a list. -/
def updateLast (f : Fields → Option Fields) : List Fields → Option (List Fields)
  | [] => none
  | [last] => (f last).map fun table => [table]
  | table :: rest => (updateLast f rest).map (table :: ·)

/-- Sets a key. The tables on its way are made by dotted keys, the last one at least. -/
def setPair (value : Value) (key : String) : (way : List String) → Fields → Option Fields
  | [], fields => if (fields.lookup key).isSome then none else some (set key value fields)
  | name :: way, fields =>
    match fields.lookup name with
    | none => (setPair value key way []).map fun inner => set name (.table .dotted inner) fields
    | some (.table .dotted inner) =>
      (setPair value key way inner).map fun inner => set name (.table .dotted inner) fields
    | some (.table .implied inner) =>
      if way.isEmpty then none
      else (setPair value key way inner).map fun inner => set name (.table .implied inner) fields
    | some (.tables items) =>
      if way.isEmpty then none
      else (updateLast (setPair value key way) items).map fun items => set name (.tables items) fields
    | some _ => none

/-- Changes the table that a header's path leads to, with implied tables where there is none. -/
def updateAt (f : Fields → Option Fields) : (path : List String) → Fields → Option Fields
  | [], fields => f fields
  | name :: path, fields =>
    match fields.lookup name with
    | none => (updateAt f path []).map fun inner => set name (.table .implied inner) fields
    | some (.table .inline _) => none
    | some (.table origin inner) => (updateAt f path inner).map fun inner => set name (.table origin inner) fields
    | some (.tables items) => (updateLast (updateAt f path) items).map fun items => set name (.tables items) fields
    | some _ => none

/-- Opens a table by a header. -/
def openTable (name : String) (fields : Fields) : Option Fields :=
  match fields.lookup name with
  | none => some (set name (.table .header []) fields)
  | some (.table .implied inner) => some (set name (.table .header inner) fields)
  | some _ => none

/-- Opens one more table under a header in double brackets. -/
def openAnother (name : String) (fields : Fields) : Option Fields :=
  match fields.lookup name with
  | none => some (set name (.tables [[]]) fields)
  | some (.tables items) => some (set name (.tables (items ++ [[]])) fields)
  | some _ => none

end Fields

end Toml

end SourceCoverage
