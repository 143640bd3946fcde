namespace SourceCoverage

/-- Why command-line words are refused, or what is shown in place of a command. -/
inductive UsageError where
  | invalidValue
  | unknownArgument
  | invalidSubcommand
  | tooManyValues
  | valueValidation
  | argumentConflict
  | missingRequiredArgument
  | displayHelp
  | displayHelpOnMissing
  | displayVersion
deriving DecidableEq, Repr

/-- The name under which a refusal is known. -/
def UsageError.name : UsageError → String
  | invalidValue => "InvalidValue"
  | unknownArgument => "UnknownArgument"
  | invalidSubcommand => "InvalidSubcommand"
  | tooManyValues => "TooManyValues"
  | valueValidation => "ValueValidation"
  | argumentConflict => "ArgumentConflict"
  | missingRequiredArgument => "MissingRequiredArgument"
  | displayHelp => "DisplayHelp"
  | displayHelpOnMissing => "DisplayHelpOnMissingArgumentOrSubcommand"
  | displayVersion => "DisplayVersion"

namespace Usage

/-- How often something may be given and whether it takes a value. -/
inductive Arity where
  /-- Given at most once, without a value. -/
  | flag
  | counter
  /-- Shows a text and ends. -/
  | shows (text : UsageError)
  | single
  | many
deriving DecidableEq, Repr

/-- An option or a kind of free words. -/
structure Parameter where
  /-- The name after two dashes; it also tells free words apart. -/
  name : String
  short : Option Char := none
  arity : Arity
  /-- What is wrong with a value. -/
  check : String → Option UsageError := fun _ => none

def Parameter.takesValue (p : Parameter) : Bool := p.arity == .single || p.arity == .many

end Usage

structure Usage where
  options : List Usage.Parameter
  /-- The free words before two dashes; one of them at least is required. -/
  words : Option Usage.Parameter := none
  /-- The free words after two dashes, if they are of their own kind. -/
  trailing : Option Usage.Parameter := none

namespace Usage

/-- How far the words have been matched. -/
structure Matching where
  /-- What was given: the values of each occurrence, in order. -/
  given : List (String × List String) := []
  /-- A parameter whose values, last first, have not been looked at yet. -/
  pending : Option (Parameter × List String) := none
  /-- The pending option still waits for its value. -/
  awaiting : Bool := false
  /-- Two dashes have been passed. -/
  trailing : Bool := false

namespace Matching

def isGiven (m : Matching) (name : String) : Bool := m.given.any (·.1 == name)

def values (m : Matching) (name : String) : List String :=
  m.given.flatMap fun (other, values) => if other == name then values else []

def value? (m : Matching) (name : String) : Option String := (m.values name).head?

def count (m : Matching) (name : String) : Nat := (m.given.filter (·.1 == name)).length

def record (m : Matching) (p : Parameter) (values : List String) : Matching :=
  { m with given := m.given ++ [(p.name, values)] }

/-- Takes a parameter with its values. -/
def accept (m : Matching) (p : Parameter) (values : List String) : Except UsageError Matching :=
  match p.arity with
  | .shows text => .error text
  | .counter => .ok (m.record p [])
  | .flag => if m.isGiven p.name then .error .argumentConflict else .ok (m.record p [])
  | .single =>
    if values.isEmpty then .error .invalidValue
    else if m.isGiven p.name then .error .argumentConflict
    else checked
  | .many => checked
where
  checked : Except UsageError Matching :=
    match values.findSome? p.check with
    | some e => .error e
    | none => .ok (m.record p values)

/-- Looks at what is pending. -/
def settle (m : Matching) : Except UsageError Matching :=
  match m.pending with
  | none => .ok m
  | some (p, values) => { m with pending := none, awaiting := false }.accept p values.reverse

/-- An option with an attached value, or without any. -/
def option (m : Matching) (p : Parameter) (attached : Option String) : Except UsageError Matching := do
  let m ← m.settle
  match attached with
  | some value => m.accept p [value]
  | none =>
    if p.takesValue then return { m with pending := some (p, []), awaiting := true } else m.accept p []

def long (m : Matching) (usage : Usage) (name : String) (attached : Option String) :
    Except UsageError Matching :=
  match usage.options.find? (·.name == name) with
  | none => .error .unknownArgument
  | some p => if attached.isSome && !p.takesValue then .error .tooManyValues else m.option p attached

/-- Short options in one word. The first one that takes a value takes the rest of the word, without an
equals sign in front of it. -/
def shorts (usage : Usage) : List Char → Matching → Except UsageError Matching
  | [], m => .ok m
  | c :: rest, m =>
    match usage.options.find? (·.short == some c) with
    | none => .error .unknownArgument
    | some p =>
      if !p.takesValue then do shorts usage rest (← m.option p none)
      else
        match rest with
        | [] => m.option p none
        | '=' :: value => m.option p (some (String.ofList value))
        | value => m.option p (some (String.ofList value))

/-- A free word. -/
def word (m : Matching) (usage : Usage) (text : String) : Except UsageError Matching :=
  match if m.trailing then usage.trailing.or usage.words else usage.words with
  | none => .error .unknownArgument
  | some p =>
    match m.pending with
    | some (q, values) =>
      if q.name == p.name then
        if p.arity == .many then .ok { m with pending := some (p, text :: values) }
        else .error .unknownArgument
      else start p
    | none => start p
where
  start (p : Parameter) : Except UsageError Matching := do
    if p.arity == .single && m.isGiven p.name then throw .unknownArgument
    let m ← m.settle
    return { m with pending := some (p, [text]) }

def divideAtEquals (text : List Char) : String × Option String :=
  match text.dropWhile (· != '=') with
  | [] => (String.ofList text, none)
  | _ :: value => (String.ofList (text.takeWhile (· != '=')), some (String.ofList value))

/-- One word of the command line. -/
def step (usage : Usage) (m : Matching) (text : String) : Except UsageError Matching :=
  if m.trailing then m.word usage text
  else
    match text.toList with
    | ['-', '-'] => .ok { m with trailing := true, awaiting := false }
    | '-' :: '-' :: rest =>
      let (name, attached) := divideAtEquals rest
      m.long usage name attached
    | '-' :: c :: rest => shorts usage (c :: rest) m
    | _ =>
      match m.awaiting, m.pending with
      | true, some (p, values) => .ok { m with pending := some (p, text :: values), awaiting := false }
      | _, _ => m.word usage text

end Matching

/-- Matches all words. -/
def match? (usage : Usage) (words : List String) : Except UsageError Matching := do
  let m ← words.foldlM (Matching.step usage) {}
  let m ← m.settle
  match usage.words with
  | some p => if m.isGiven p.name then return m else throw .missingRequiredArgument
  | none => return m

end Usage

end SourceCoverage
