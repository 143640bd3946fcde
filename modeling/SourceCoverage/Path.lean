namespace SourceCoverage

structure Path where
  text : String
deriving DecidableEq, Repr

namespace Path

inductive Component where
  | root
  | current
  | parent
  | name (text : String)
deriving DecidableEq, Repr

def Component.text : Component → String
  | root => "/"
  | current => "."
  | parent => ".."
  | name text => text

/-- The characters of a path, divided into the mark it starts with and the rest. -/
structure Shape where
  lead : Option Component
  body : List Char

def Shape.ofChars : List Char → Shape
  | '/' :: body => ⟨some .root, body⟩
  | ['.'] => ⟨some .current, []⟩
  | '.' :: '/' :: body => ⟨some .current, '/' :: body⟩
  | body => ⟨none, body⟩

def shape (p : Path) : Shape := Shape.ofChars p.text.toList

/-- The parts between slashes, empty ones included. -/
def parts : List Char → List (List Char)
  | [] => [[]]
  | '/' :: rest => [] :: parts rest
  | c :: rest =>
    match parts rest with
    | [] => [[c]]
    | part :: others => (c :: part) :: others

/-- Parts that name nothing. -/
def isSilent (part : List Char) : Bool := part == [] || part == ['.']

def Component.ofPart (part : List Char) : Component :=
  if part == ['.', '.'] then .parent else .name (String.ofList part)

def components (p : Path) : List Component :=
  let shape := p.shape
  shape.lead.toList ++ ((parts shape.body).filter (! isSilent ·)).map Component.ofPart

/-- Two spellings of one path. -/
def agrees (p q : Path) : Bool := p.components == q.components

def isAbsolute (p : Path) : Bool := p.shape.lead == some .root

def fileName? (p : Path) : Option String :=
  match p.components.getLast? with
  | some (.name text) => some text
  | _ => none

/-- A file name divided at its last dot. A dot in front does not divide. -/
def divideName (name : List Char) : List Char × Option (List Char) :=
  let ending := (name.reverse.takeWhile (· != '.')).reverse
  match name.reverse.dropWhile (· != '.') with
  | _ :: c :: before => ((c :: before).reverse, some ending)
  | _ => (name, none)

def stem? (p : Path) : Option String :=
  p.fileName?.map fun name => String.ofList (divideName name.toList).1

def extension? (p : Path) : Option String :=
  p.fileName?.bind fun name => (divideName name.toList).2.map String.ofList

/-- Drops silent parts at the end of a body. The body is held in reverse, so they stand in front. -/
def dropSilent (reversed : List Char) : List Char :=
  match reversed with
  | [] => []
  | c :: rest =>
    if isSilent ((c :: rest).takeWhile (· != '/')) then
      dropSilent (((c :: rest).dropWhile (· != '/')).drop 1)
    else c :: rest
termination_by reversed.length
decreasing_by
  have shorter : ((c :: rest).dropWhile (· != '/')).length ≤ (c :: rest).length :=
    (List.dropWhile_suffix _).length_le
  simp only [List.length_drop, List.length_cons] at *
  omega

/-- The path without its last component; nothing when it has no component to lose. -/
def parent? (p : Path) : Option Path :=
  let shape := p.shape
  let lead := match shape.lead with
    | some c => c.text
    | none => ""
  match dropSilent shape.body.reverse with
  | [] => if shape.lead == some .current then some ⟨""⟩ else none
  | body => some ⟨lead ++ String.ofList (dropSilent ((body.dropWhile (· != '/')).drop 1)).reverse⟩

/-- `q` seen from the directory `p`. -/
def join (p q : Path) : Path :=
  if q.isAbsolute then q
  else if p.text.isEmpty || p.text.endsWith "/" then ⟨p.text ++ q.text⟩
  else ⟨p.text ++ "/" ++ q.text⟩

def withFileName (p : Path) (name : String) : Path :=
  let base := if p.fileName?.isSome then p.parent?.getD p else p
  base.join ⟨name⟩

/-- The path as seen from the root, without resolving it. Two slashes in front are kept as they are,
and a slash at the end is kept. The empty path has no such form. -/
def absolute? (workingDirectory : Option Path) (p : Path) : Option Path :=
  let named := p.components.filter (· != .current)
  let start : Option (Path × List Component) :=
    if p.text.isEmpty then none
    else if !p.isAbsolute then workingDirectory.map (·, named)
    else if p.text.startsWith "//" && !p.text.startsWith "///" then some (⟨"//"⟩, named.drop 1)
    else some (⟨""⟩, named)
  start.map fun (base, named) =>
    let whole := named.foldl (fun base c => base.join ⟨c.text⟩) base
    if p.text.endsWith "/" then whole.join ⟨""⟩ else whole

/-- The path and what is above it, nearest first. -/
def ancestors (p : Path) : Nat → List Path
  | 0 => []
  | limit + 1 =>
    match p.parent? with
    | some above => p :: above.ancestors limit
    | none => [p]

end Path

end SourceCoverage
