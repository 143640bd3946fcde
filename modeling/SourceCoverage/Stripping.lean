import SourceCoverage.Probe
import SourceCoverage.Stripping.Token

namespace SourceCoverage

/-- A piece of instrumented text. Openers carry the digits of their id. -/
inductive Piece where
  | kept (text : Octets)
  | checkpoint (id : Octets)
  | scopeOpen (id : Octets)
  | scopeClose
  | evaluationOpen (id : Octets)
  | evaluationClose
deriving DecidableEq, Repr

inductive FrameKind where
  | scope
  | evaluation
deriving DecidableEq, Repr

/-- A probe that is open: at which depth of its kind of bracket, and where it started. -/
structure Frame where
  kind : FrameKind
  depth : Nat
  id : Octets
  offset : Nat
deriving DecidableEq, Repr

/-- A probe that the text never closes. -/
structure Unclosed where
  id : String
  offset : Nat
deriving DecidableEq, Repr

def Unclosed.message (u : Unclosed) : String :=
  s!"probe {u.id} opened at byte {u.offset} is never closed"

/-- A part of a probe found in a text: the digits of its id, and how many octets it has. -/
structure Call where
  id : Octets
  length : Nat
deriving DecidableEq, Repr

namespace Probes

/-- `name(digits` with `after` behind it, at the front of a text. -/
def callAt? (name after : String) (text : Octets) : Option Call := do
  let name := Utf8.encode name
  let after := Utf8.encode after
  let rest ← Octets.after? name text
  let rest ← Octets.after? [Octets.ascii '('] rest
  let digits := rest.takeWhile Octets.isDigit
  if !digits.isEmpty && Octets.startsWith after (rest.drop digits.length) then
    some ⟨digits, name.length + 1 + digits.length + after.length⟩
  else none

def scopeOpenAt? (probes : Probes) (text : Octets) : Option Call := do
  let brace := Utf8.encode "\x7b "
  let rest ← Octets.after? brace text
  let call ← callAt? probes.names.checkpoint "u); " rest
  return ⟨call.id, brace.length + call.length⟩

def checkpointAt? (probes : Probes) (text : Octets) : Option Call :=
  callAt? probes.names.checkpoint "); " text

def evaluationOpenAt? (probes : Probes) (text : Octets) : Option Call :=
  callAt? probes.names.evaluation ", (" text

end Probes

namespace Stripping

/-- How far a text has been divided. `pieces` are held in reverse. -/
structure State where
  previous : Option UInt8 := none
  offset : Nat := 0
  parens : Nat := 0
  braces : Nat := 0
  frames : List Frame := []
  pieces : List Piece := []

/-- One step: the state after it, and how many octets it took off the text. -/
structure Taken where
  state : State
  length : Nat

def State.advance (s : State) (text : Octets) (length : Nat) (piece : Piece) : State :=
  { s with
    previous := (text[length - 1]?).or s.previous
    offset := s.offset + length
    pieces := piece :: s.pieces }

/-- The closer of the innermost open probe, if its brackets are balanced here. -/
def closer? (probes : Probes) (s : State) (text : Octets) : Option Taken :=
  match s.frames with
  | [] => none
  | top :: below =>
    let (closer, depth, piece) : String × Nat × Piece := match top.kind with
      | .scope => (probes.scopeClose, s.braces, .scopeClose)
      | .evaluation => (probes.evaluationClose, s.parens, .evaluationClose)
    let closer := Utf8.encode closer
    if depth == top.depth && Octets.startsWith closer text then
      some ⟨{ s.advance text closer.length piece with frames := below }, closer.length⟩
    else none

/-- A scope opener; it may follow any octet, because it starts with a brace. -/
def scope? (probes : Probes) (s : State) (text : Octets) : Option Taken :=
  (probes.scopeOpenAt? text).map fun call =>
    ⟨{ s.advance text call.length (.scopeOpen call.id) with
        frames := ⟨.scope, s.braces, call.id, s.offset⟩ :: s.frames }, call.length⟩

def checkpoint? (probes : Probes) (s : State) (text : Octets) : Option Taken :=
  (probes.checkpointAt? text).map fun call =>
    ⟨s.advance text call.length (.checkpoint call.id), call.length⟩

def evaluation? (probes : Probes) (s : State) (text : Octets) : Option Taken :=
  (probes.evaluationOpenAt? text).map fun call =>
    ⟨{ s.advance text call.length (.evaluationOpen call.id) with
        frames := ⟨.evaluation, s.parens, call.id, s.offset⟩ :: s.frames }, call.length⟩

/-- The part of a probe at the front of a text. Calls are looked for only where a word can start. -/
def probe? (probes : Probes) (s : State) (text : Octets) : Option Taken :=
  (closer? probes s text).or <| (scope? probes s text).or <|
    if Token.atWordStart s.previous then (checkpoint? probes s text).or (evaluation? probes s text) else none

/-- Keeps a token, and counts it if it is a bracket. -/
def keep (s : State) (b : UInt8) (rest : Octets) : Taken :=
  let token := Token.next s.previous b rest
  let after := s.advance (b :: rest) token.length (.kept ((b :: rest).take token.length))
  let after := match token.kind with
    | .openParen => { after with parens := s.parens + 1 }
    | .closeParen => { after with parens := s.parens - 1 }
    | .openBrace => { after with braces := s.braces + 1 }
    | .closeBrace => { after with braces := s.braces - 1 }
    | _ => after
  ⟨after, token.length⟩

/-- Divides a text. Neither a part of a probe nor a token is empty, so each step takes one octet and
what it takes besides. -/
def divide (probes : Probes) (s : State) : Octets → State
  | [] => s
  | b :: rest =>
    let taken := match probe? probes s (b :: rest) with
      | some taken => taken
      | none => keep s b rest
    divide probes taken.state (rest.drop (taken.length - 1))
termination_by text => text.length
decreasing_by simp only [List.length_drop, List.length_cons]; omega

end Stripping

/-- The text after the two lines of a preamble, if they are there. -/
def withoutPreamble (text : Octets) : Octets :=
  let line := text.takeWhile (· != Octets.newline)
  let below := (text.drop line.length).drop 1
  let second := below.takeWhile (· != Octets.newline)
  if line.length < text.length && Octets.startsWith (Utf8.encode "#include \"") line
      && Octets.startsWith (Utf8.encode "#line 1 \"") second then
    (below.drop second.length).drop 1
  else text

/-- What a piece leaves behind. -/
def Piece.remnant : Piece → Octets
  | kept text => text
  | _ => []

/-- The text without its preamble and its probes. -/
def strip (probes : Probes) (text : Octets) : Except Unclosed Octets :=
  let s := Stripping.divide probes {} (withoutPreamble text)
  match s.frames with
  | top :: _ => .error ⟨Utf8.decodeLossy top.id, top.offset⟩
  | [] => .ok (s.pieces.reverse.flatMap Piece.remnant)

/-- The same for decoded text. -/
def stripText (probes : Probes) (text : String) : Except Unclosed String :=
  (strip probes (Utf8.encode text)).map Utf8.decodeLossy

end SourceCoverage
