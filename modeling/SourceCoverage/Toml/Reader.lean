import SourceCoverage.Toml.Lexeme

namespace SourceCoverage

namespace Toml

mutual

def takeValue : (steps : Nat) → List Char → Option (Value × List Char)
  | 0, _ => none
  | steps + 1, text =>
    match takeString? text with
    | some read => read.map fun (s, rest) => (.string s, rest)
    | none =>
      match text with
      | '[' :: rest => takeItems steps [] rest
      | '\x7b' :: rest => takePairs steps [] rest
      | _ =>
        let (word, rest) := takeUnquoted text
        (unquoted? word).map (·, rest)

/-- Array items up to the closing bracket. A comma may follow the last one. -/
def takeItems : (steps : Nat) → List Value → List Char → Option (Value × List Char)
  | 0, _, _ => none
  | steps + 1, items, text =>
    match skipGap false text with
    | none => none
    | some (']' :: rest) => some (.array items.reverse, rest)
    | some text =>
      match takeValue steps text with
      | none => none
      | some (item, rest) =>
        match skipGap false rest with
        | some (',' :: rest) => takeItems steps (item :: items) rest
        | some (']' :: rest) => some (.array (item :: items).reverse, rest)
        | _ => none

/-- Pairs of an inline table up to the closing brace. A comma may follow the last one. -/
def takePairs : (steps : Nat) → Fields → List Char → Option (Value × List Char)
  | 0, _, _ => none
  | steps + 1, fields, text =>
    match skipGap false text with
    | none => none
    | some ('\x7d' :: rest) => some (.table .inline fields, rest)
    | some text =>
      match takePair steps text with
      | none => none
      | some (keys, value, rest) =>
        match Fields.setPair value (keys.getLastD "") keys.dropLast fields with
        | none => none
        | some fields =>
          match skipGap false rest with
          | some (',' :: rest) => takePairs steps fields rest
          | some ('\x7d' :: rest) => some (.table .inline fields, rest)
          | _ => none

/-- Keys, an equals sign and a value. -/
def takePair : (steps : Nat) → List Char → Option (List String × Value × List Char)
  | 0, _ => none
  | steps + 1, text =>
    match takeKeys (text.length + 1) text with
    | some (keys, '=' :: rest) => (takeValue steps (skipBlanks rest)).map fun (value, rest) => (keys, value, rest)
    | _ => none

end

/-- A header's keys, up to its closing brackets. -/
def takeHeader (closing : List Char) (text : List Char) : Option (List String × List Char) := do
  let (keys, rest) ← takeKeys (text.length + 1) text
  if closing.isPrefixOf rest then some (keys, rest.drop closing.length) else none

/-- The tables so far, and the path of the one whose keys are being set. -/
structure Progress where
  root : Fields := []
  path : List String := []

/-- One line: blank, a header or a pair. A value may go on over several lines. -/
def takeLine (progress : Progress) (text : List Char) : Option (Progress × List Char) :=
  match endLine? text with
  | some rest => some (progress, rest)
  | none =>
    match skipBlanks text with
    | '[' :: '[' :: rest => do
      let (keys, rest) ← takeHeader [']', ']'] rest
      let root ← progress.root.updateAt (Fields.openAnother (keys.getLastD "")) keys.dropLast
      return (⟨root, keys⟩, ← endLine? rest)
    | '[' :: rest => do
      let (keys, rest) ← takeHeader [']'] rest
      let root ← progress.root.updateAt (Fields.openTable (keys.getLastD "")) keys.dropLast
      return (⟨root, keys⟩, ← endLine? rest)
    | text => do
      let (keys, value, rest) ← takePair (2 * text.length + 2) text
      let root ← progress.root.updateAt (Fields.setPair value (keys.getLastD "") keys.dropLast) progress.path
      return ({ progress with root }, ← endLine? rest)

def takeLines : (steps : Nat) → Progress → List Char → Option Fields
  | 0, _, _ => none
  | steps + 1, progress, text =>
    match text with
    | [] => some progress.root
    | text =>
      match takeLine progress text with
      | none => none
      | some (progress, rest) => takeLines steps progress rest

/-- The keys of a text. A byte order mark in front is passed over. -/
def read? (text : String) : Option Fields :=
  let chars := match text.toList with
    | c :: rest => if c.toNat == 0xFEFF then rest else c :: rest
    | [] => []
  takeLines (chars.length + 1) {} chars

end Toml

end SourceCoverage
