import SourceCoverage.Proofs.Stripping.Division

namespace SourceCoverage

open Octets Token

namespace FrameKind

def opener : FrameKind → Octets → Piece
  | .scope => .scopeOpen
  | .evaluation => .evaluationOpen

def closer : FrameKind → Piece
  | .scope => .scopeClose
  | .evaluation => .evaluationClose

end FrameKind

namespace Probes

/-- The octets of a call: its name, its digits and what closes it. -/
def callText (name : String) (digits : Octets) (after : String) : Octets :=
  Utf8.encode name ++ ascii '(' :: (digits ++ Utf8.encode after)

theorem callText_ne_nil (name : String) (digits : Octets) (after : String) : callText name digits after ≠ [] := by
  simp [callText]

end Probes

/-- The decimal digits of an id, which may be larger than any marker has. -/
def IsNumber (digits : Octets) : Prop := digits ≠ [] ∧ ∀ b ∈ digits, isDigit b = true

/-- A call that is found stands there as a whole. -/
theorem Probes.callAt?_split {name after : String} {text : Octets} {call : Call}
    (stop : (Utf8.encode after).head?.any (! isDigit ·) = true) (found : callAt? name after text = some call) :
    ∃ rest, text = callText name call.id after ++ rest ∧ IsNumber call.id ∧
      call.length = (callText name call.id after).length := by
  obtain ⟨c, closing, closes⟩ : ∃ c closing, Utf8.encode after = c :: closing := by
    refine List.exists_cons_of_ne_nil ?_
    intro empty
    simp [empty] at stop
  have stop : isDigit c = false := by simpa [closes] using stop
  obtain ⟨⟨rest, split⟩, nonempty, digits, length⟩ := (callAt?_eq_some_iff closes stop).mp found
  refine ⟨rest, ?_, ⟨nonempty, digits⟩, ?_⟩
  · rw [split, callText, List.append_assoc, List.cons_append, List.append_assoc]
  · rw [length, callText, Stripping.length_call]

namespace Piece

/-- The octets of a piece in the text that it is taken from. -/
def text (probes : Probes) : Piece → Octets
  | kept text => text
  | checkpoint id => Probes.callText probes.names.checkpoint id "); "
  | scopeOpen id => Utf8.encode "\x7b " ++ Probes.callText probes.names.checkpoint id "u); "
  | scopeClose => Utf8.encode probes.scopeClose
  | evaluationOpen id => Probes.callText probes.names.evaluation id ", ("
  | evaluationClose => Utf8.encode probes.evaluationClose

def id? : Piece → Option Octets
  | checkpoint id | scopeOpen id | evaluationOpen id => some id
  | kept _ | scopeClose | evaluationClose => none

def IsNumbered (p : Piece) : Prop := ∀ id, p.id? = some id → IsNumber id

theorem id?_opener (kind : FrameKind) (id : Octets) : (kind.opener id).id? = some id := by cases kind <;> rfl

end Piece

/-- Openers and closers pair up: every opener has a closer of its kind, and what is between them pairs up by
itself. -/
inductive Piece.Nested : List Piece → Prop
  | nil : Nested []
  | kept {text : Octets} {rest : List Piece} : Nested rest → Nested (.kept text :: rest)
  | checkpoint {id : Octets} {rest : List Piece} : Nested rest → Nested (.checkpoint id :: rest)
  | enclose {kind : FrameKind} {id : Octets} {inside rest : List Piece} : Nested inside → Nested rest →
      Nested (kind.opener id :: (inside ++ kind.closer :: rest))

theorem Piece.Nested.append {pieces pieces' : List Piece} (nested : Nested pieces) (nested' : Nested pieces') :
    Nested (pieces ++ pieces') := by
  induction nested with
  | nil => exact nested'
  | kept _ ih => exact .kept ih
  | checkpoint _ ih => exact .checkpoint ih
  | enclose inside _ _ ih =>
    rw [List.cons_append, List.append_assoc, List.cons_append]
    exact .enclose inside ih

namespace Stripping

/-- The openers among the pieces that no closer belongs to, the last one first, each with the place where it starts.
Between two of them the pieces pair up. -/
inductive Opened (probes : Probes) : List Frame → List Piece → Prop
  | closed {pieces : List Piece} : Piece.Nested pieces → Opened probes [] pieces
  | opener {frames : List Frame} {before inside : List Piece} (top : Frame) : Opened probes frames before →
      top.offset = (before.flatMap (Piece.text probes)).length → Piece.Nested inside →
      Opened probes (top :: frames) (before ++ top.kind.opener top.id :: inside)

/-- How a piece that starts at `offset` changes the probes that are open. -/
inductive Reframes (offset : Nat) : Piece → List Frame → List Frame → Prop
  | kept {text : Octets} {frames : List Frame} : Reframes offset (.kept text) frames frames
  | checkpoint {id : Octets} {frames : List Frame} : Reframes offset (.checkpoint id) frames frames
  | opener (kind : FrameKind) {depth : Nat} {id : Octets} {frames : List Frame} :
      Reframes offset (kind.opener id) frames (⟨kind, depth, id, offset⟩ :: frames)
  | closer {top : Frame} {frames : List Frame} : Reframes offset top.kind.closer (top :: frames) frames

namespace Opened

variable {probes : Probes} {frames frames' : List Frame} {pieces inside : List Piece} {piece : Piece}

theorem append (opened : Opened probes frames pieces) (nested : Piece.Nested inside) :
    Opened probes frames (pieces ++ inside) := by
  cases opened with
  | closed outside => exact .closed (outside.append nested)
  | opener top below start within =>
    rw [List.append_assoc, List.cons_append]
    exact .opener top below start (within.append nested)

theorem reframe (opened : Opened probes frames pieces)
    (reframes : Reframes (pieces.flatMap (Piece.text probes)).length piece frames frames') :
    Opened probes frames' (pieces ++ [piece]) := by
  cases reframes with
  | kept => exact opened.append (.kept .nil)
  | checkpoint => exact opened.append (.checkpoint .nil)
  | opener => exact .opener _ opened rfl .nil
  | closer =>
    cases opened with
    | opener top below _ within =>
      rw [List.append_assoc, List.cons_append]
      exact below.append (.enclose within .nil)

end Opened

variable {probes : Probes} {s : State} {text rest whole : Octets} {taken : Taken} {piece : Piece} {b : UInt8}

/-- A piece is taken off the front of a text. -/
structure Consumes (probes : Probes) (s : State) (text : Octets) (taken : Taken) (piece : Piece) (rest : Octets) :
    Prop where
  split : text = piece.text probes ++ rest
  nonempty : piece.text probes ≠ []
  numbered : piece.IsNumbered
  length : taken.length = (piece.text probes).length
  previous : taken.state.previous = (piece.text probes).getLast?
  offset : taken.state.offset = s.offset + (piece.text probes).length
  pieces : taken.state.pieces = piece :: s.pieces
  frames : Reframes s.offset piece s.frames taken.state.frames

theorem consumes_advance (piece : Piece) {frames : List Frame} (split : text = piece.text probes ++ rest)
    (nonempty : piece.text probes ≠ []) (numbered : piece.IsNumbered)
    (reframes : Reframes s.offset piece s.frames frames) :
    Consumes probes s text
      ⟨{ s.advance text (piece.text probes).length piece with frames := frames }, (piece.text probes).length⟩
      piece rest where
  split := split
  nonempty := nonempty
  numbered := numbered
  length := rfl
  previous := by
    subst split
    exact previous_advance nonempty piece
  offset := rfl
  pieces := rfl
  frames := reframes

theorem closer?_eq_some_iff : closer? probes s text = some taken ↔ ∃ top below, s.frames = top :: below ∧
    top.kind.depth s.parens s.braces = top.depth ∧ startsWith (top.kind.closer.text probes) text = true ∧
    taken = ⟨{ s.advance text (top.kind.closer.text probes).length top.kind.closer with frames := below },
      (top.kind.closer.text probes).length⟩ := by
  unfold closer?
  split
  · rename_i none
    simp [none]
  · rename_i top below frames
    rw [frames]
    cases atKind : top.kind <;>
      simp [FrameKind.depth, FrameKind.closer, Piece.text, atKind, and_assoc, eq_comm (a := taken)]

theorem closer?_consumes (found : closer? probes s text = some taken) :
    ∃ piece rest, Consumes probes s text taken piece rest := by
  obtain ⟨top, below, frames, _, starts, rfl⟩ := closer?_eq_some_iff.mp found
  obtain ⟨rest, split⟩ := startsWith_iff.mp starts
  refine ⟨top.kind.closer, rest, consumes_advance _ split ?_ ?_ ?_⟩
  · obtain ⟨behind, evaluationClose, _⟩ := probes.encode_evaluationClose
    cases top.kind <;> simp [FrameKind.closer, Piece.text, Probes.encode_scopeClose, evaluationClose]
  · intro id numbered
    cases atKind : top.kind <;> rw [atKind] at numbered <;> cases numbered
  · rw [frames]
    exact .closer

theorem scope?_consumes (found : scope? probes s text = some taken) :
    ∃ piece rest, Consumes probes s text taken piece rest := by
  obtain ⟨call, opens, rfl⟩ := Option.map_eq_some_iff.mp found
  simp only [Probes.scopeOpenAt?, bind, Option.bind_eq_some_iff, after?_eq_some_iff, pure, Option.some.injEq] at opens
  obtain ⟨_, rfl, inner, called, rfl⟩ := opens
  obtain ⟨rest, rfl, number, length⟩ := Probes.callAt?_split (by decide) called
  refine ⟨.scopeOpen inner.id, rest, ?_⟩
  have size : (Utf8.encode "\x7b ").length + inner.length = ((Piece.scopeOpen inner.id).text probes).length := by
    rw [length, Piece.text, List.length_append]
  rw [size]
  refine consumes_advance (.scopeOpen inner.id) (List.append_assoc _ _ _).symm ?_ ?_ (.opener .scope)
  · simp [Piece.text, Probes.callText_ne_nil]
  · rintro id ⟨⟩
    exact number

theorem checkpoint?_consumes (found : checkpoint? probes s text = some taken) :
    ∃ piece rest, Consumes probes s text taken piece rest := by
  obtain ⟨call, called, rfl⟩ := Option.map_eq_some_iff.mp found
  obtain ⟨rest, split, number, length⟩ := Probes.callAt?_split (by decide) called
  refine ⟨.checkpoint call.id, rest, ?_⟩
  rw [length]
  refine consumes_advance (.checkpoint call.id) split (Probes.callText_ne_nil _ _ _) ?_ .checkpoint
  rintro id ⟨⟩
  exact number

theorem evaluation?_consumes (found : evaluation? probes s text = some taken) :
    ∃ piece rest, Consumes probes s text taken piece rest := by
  obtain ⟨call, called, rfl⟩ := Option.map_eq_some_iff.mp found
  obtain ⟨rest, split, number, length⟩ := Probes.callAt?_split (by decide) called
  refine ⟨.evaluationOpen call.id, rest, ?_⟩
  rw [length]
  refine consumes_advance (.evaluationOpen call.id) split (Probes.callText_ne_nil _ _ _) ?_ (.opener .evaluation)
  rintro id ⟨⟩
  exact number

theorem probe?_consumes (found : probe? probes s text = some taken) :
    ∃ piece rest, Consumes probes s text taken piece rest := by
  unfold probe? at found
  rcases Option.or_eq_some_iff.mp found with closes | ⟨_, found⟩
  · exact closer?_consumes closes
  rcases Option.or_eq_some_iff.mp found with opens | ⟨_, found⟩
  · exact scope?_consumes opens
  split at found
  · rcases Option.or_eq_some_iff.mp found with passes | ⟨_, opens⟩
    · exact checkpoint?_consumes passes
    · exact evaluation?_consumes opens
  · cases found

theorem keep_consumes (probes : Probes) (s : State) (b : UInt8) (text : Octets) :
    ∃ piece rest, Consumes probes s (b :: text) (keep s b text) piece rest := by
  obtain ⟨kind, tail, rest, rfl, read⟩ := exists_token s.previous b text
  refine ⟨.kept (b :: tail), rest, ?_⟩
  rw [keep_eq read]
  exact
    { split := rfl
      nonempty := List.cons_ne_nil b tail
      numbered := fun id absent => nomatch absent
      length := rfl
      previous := rfl
      offset := rfl
      pieces := rfl
      frames := .kept }

/-- What one round of the loop takes off a text. -/
def round (probes : Probes) (s : State) (b : UInt8) (text : Octets) : Taken :=
  (probe? probes s (b :: text)).getD (keep s b text)

theorem round_consumes (probes : Probes) (s : State) (b : UInt8) (text : Octets) :
    ∃ piece rest, Consumes probes s (b :: text) (round probes s b text) piece rest := by
  unfold round
  cases found : probe? probes s (b :: text) with
  | none => exact keep_consumes probes s b text
  | some taken => exact probe?_consumes found

theorem divide_cons (probes : Probes) (s : State) (b : UInt8) (text : Octets) :
    divide probes s (b :: text) =
      divide probes (round probes s b text).state (text.drop ((round probes s b text).length - 1)) := by
  rw [divide, round]
  cases probe? probes s (b :: text) <;> rfl

theorem Consumes.drop_eq (consumes : Consumes probes s (b :: text) taken piece rest) :
    text.drop (taken.length - 1) = rest := by
  have positive : 0 < taken.length := by
    rw [consumes.length]
    exact List.length_pos_iff.mpr consumes.nonempty
  rw [← List.drop_succ_cons (a := b), Nat.sub_add_cancel positive, consumes.split, consumes.length, List.drop_left]

/-- The octets of the pieces that have been taken. -/
def State.consumed (s : State) (probes : Probes) : Octets := s.pieces.reverse.flatMap (Piece.text probes)

/-- The stripper has come to a place in the text `whole`: what it took is in front of the place, and nothing else. -/
structure Divided (probes : Probes) (whole : Octets) (s : State) (rest : Octets) : Prop where
  whole_eq : whole = s.consumed probes ++ rest
  offset : s.offset = (s.consumed probes).length
  previous : s.previous = (s.consumed probes).getLast?
  numbered : ∀ p ∈ s.pieces, p.IsNumbered
  opened : Opened probes s.frames s.pieces.reverse

theorem divided_start (probes : Probes) (whole : Octets) : Divided probes whole {} whole where
  whole_eq := rfl
  offset := rfl
  previous := rfl
  numbered := by simp
  opened := .closed .nil

theorem Divided.consume (divided : Divided probes whole s text) (consumes : Consumes probes s text taken piece rest) :
    Divided probes whole taken.state rest := by
  have pieces : taken.state.pieces.reverse = s.pieces.reverse ++ [piece] := by rw [consumes.pieces, List.reverse_cons]
  have consumed : taken.state.consumed probes = s.consumed probes ++ piece.text probes := by
    rw [State.consumed, pieces, List.flatMap_append, List.flatMap_singleton, State.consumed]
  constructor
  · rw [consumed, List.append_assoc, ← consumes.split, divided.whole_eq]
  · rw [consumed, List.length_append, consumes.offset, divided.offset]
  · rw [consumed, List.getLast?_append_of_ne_nil _ consumes.nonempty, consumes.previous]
  · rw [consumes.pieces]
    exact List.forall_mem_cons.mpr ⟨consumes.numbered, divided.numbered⟩
  · rw [pieces]
    refine divided.opened.reframe ?_
    have frames := consumes.frames
    rw [divided.offset] at frames
    exact frames

/-- The places to which the loop comes in a text. -/
inductive Reaches (probes : Probes) (whole : Octets) : State → Octets → Prop
  | start : Reaches probes whole {} whole
  | round {s : State} {b : UInt8} {text : Octets} : Reaches probes whole s (b :: text) →
      Reaches probes whole (round probes s b text).state (text.drop ((round probes s b text).length - 1))

theorem Reaches.divided (reaches : Reaches probes whole s text) : Divided probes whole s text := by
  induction reaches with
  | start => exact divided_start probes whole
  | @round s b text _ ih =>
    obtain ⟨piece, rest, consumes⟩ := round_consumes probes s b text
    rw [consumes.drop_eq]
    exact ih.consume consumes

/-- The loop comes to the end of the text. -/
theorem Reaches.divide {s : State} {text : Octets} (reaches : Reaches probes whole s text) :
    Reaches probes whole (divide probes s text) [] := by
  match text with
  | [] =>
    rw [Stripping.divide]
    exact reaches
  | b :: text =>
    have shorter : (text.drop ((Stripping.round probes s b text).length - 1)).length < (b :: text).length := by
      rw [List.length_drop, List.length_cons]
      omega
    rw [divide_cons]
    exact Reaches.divide reaches.round
termination_by text.length

end Stripping

end SourceCoverage
