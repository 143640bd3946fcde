import SourceCoverage.Proofs.Stripping.Arrangement

namespace SourceCoverage

open Octets Token Stripping

namespace TokenKind

def parensAfter (parens : Nat) : TokenKind → Nat
  | .openParen => parens + 1
  | .closeParen => parens - 1
  | _ => parens

def bracesAfter (braces : Nat) : TokenKind → Nat
  | .openBrace => braces + 1
  | .closeBrace => braces - 1
  | _ => braces

end TokenKind

namespace FrameKind

def opening : FrameKind → TokenKind
  | .scope => .openBrace
  | .evaluation => .openParen

def closing : FrameKind → TokenKind
  | .scope => .closeBrace
  | .evaluation => .closeParen

/-- The depth that the closer of a probe looks at. -/
def depth (parens braces : Nat) : FrameKind → Nat
  | .scope => braces
  | .evaluation => parens

end FrameKind

def Marker.frameKind (m : Marker) : FrameKind :=
  match m.kind with
  | .checkpoint => .scope
  | .evaluation _ => .evaluation

/-- What the closer of an open probe is recognised by. -/
def Frame.mark (f : Frame) : FrameKind × Nat := (f.kind, f.depth)

def Marker.mark (m : Marker) (parens braces : Nat) : FrameKind × Nat :=
  (m.frameKind, m.frameKind.depth parens braces)

/-- The open probes are closed one by one, each at the depth at which it was opened, and the source closes no
bracket at the depth of the innermost open probe. -/
def Arrangement.Closes : List (FrameKind × Nat) → Nat → Nat → Arrangement → Prop
  | frames, _, _, [] => frames = []
  | frames, parens, braces, .lexeme l :: items =>
    (∀ k : FrameKind, l.kind = k.closing → frames.head? ≠ some (k, k.depth parens braces)) ∧
      Closes frames (l.kind.parensAfter parens) (l.kind.bracesAfter braces) items
  | frames, parens, braces, .part (.checkpoint _) :: items => Closes frames parens braces items
  | frames, parens, braces, .part (.opener m) :: items =>
    Closes (m.mark parens braces :: frames) parens braces items
  | frames, parens, braces, .part (.closer m) :: items =>
    ∃ below, frames = m.mark parens braces :: below ∧ Closes below parens braces items

namespace Stripping

variable {probes : Probes} {s s' : State} {b : UInt8} {text tail rest : Octets} {kind : TokenKind}

/-- What the pieces leave behind so far. -/
def State.remnants (s : State) : Octets := s.pieces.reverse.flatMap Piece.remnant

theorem divide_of_probe? (nonempty : text ≠ []) (found : probe? probes s (text ++ rest) = some ⟨s', text.length⟩) :
    divide probes s (text ++ rest) = divide probes s' rest := by
  cases text with
  | nil => exact absurd rfl nonempty
  | cons b text =>
    rw [List.cons_append] at found ⊢
    rw [divide, found]
    simp

/-- The state after a token is kept. -/
def State.keeping (s : State) (kind : TokenKind) (text : Octets) : State :=
  { s with
    previous := text.getLast?
    offset := s.offset + text.length
    parens := kind.parensAfter s.parens
    braces := kind.bracesAfter s.braces
    pieces := .kept text :: s.pieces }

theorem keep_eq (read : Token.next s.previous b (tail ++ rest) = ⟨kind, tail.length + 1⟩) :
    keep s b (tail ++ rest) = ⟨s.keeping kind (b :: tail), tail.length + 1⟩ := by
  have taken : (b :: (tail ++ rest)).take (tail.length + 1) = b :: tail := by simp
  simp only [keep, read, State.advance, getElem?_or_eq_getLast?, taken]
  cases kind <;> rfl

theorem divide_of_keep (plain : probe? probes s (b :: (tail ++ rest)) = none)
    (read : Token.next s.previous b (tail ++ rest) = ⟨kind, tail.length + 1⟩) :
    divide probes s (b :: (tail ++ rest)) = divide probes (s.keeping kind (b :: tail)) rest := by
  rw [divide, plain]
  simp only [keep_eq read]
  simp

@[simp] theorem remnants_keeping (s : State) (kind : TokenKind) (text : Octets) :
    (s.keeping kind text).remnants = s.remnants ++ text := by
  simp [State.remnants, State.keeping, Piece.remnant]

/-- No closer starts with a letter or with a brace. -/
theorem closer?_eq_none (space : b ≠ ascii ' ') (paren : b ≠ ascii ')') : closer? probes s (b :: rest) = none := by
  obtain ⟨behind, closes, _⟩ := probes.encode_evaluationClose
  unfold closer?
  split
  · rfl
  · rename_i top below _
    cases top.kind with
    | scope => simp [Probes.encode_scopeClose, startsWith_false_of_head space.symm]
    | evaluation => simp [closes, startsWith_false_of_head paren.symm]

theorem scope?_eq_none (brace : b ≠ ascii '\x7b') : scope? probes s (b :: rest) = none := by
  have opening : Utf8.encode "\x7b " = [ascii '\x7b', ascii ' '] := by decide
  simp [scope?, Probes.scopeOpenAt?, opening, after?, brace.symm]

/-- A part is taken out of the text as a whole. -/
structure Takes (probes : Probes) (s : State) (p : Part) (rest : Octets) (s' : State) : Prop where
  found : probe? probes s (p.text probes ++ rest) = some ⟨s', (p.text probes).length⟩
  previous : s'.previous = (p.text probes).getLast?
  parens : s'.parens = s.parens
  braces : s'.braces = s.braces
  remnants : s'.remnants = s.remnants

theorem previous_advance (nonempty : text ≠ []) (piece : Piece) :
    (s.advance (text ++ rest) text.length piece).previous = text.getLast? := by
  cases text with
  | nil => exact absurd rfl nonempty
  | cons b tail => exact getElem?_or_eq_getLast?

theorem takes_of_found {p : Part} (piece : Piece) {frames : List Frame} (silent : piece.remnant = [])
    (found : probe? probes s (p.text probes ++ rest) =
      some ⟨{ s.advance (p.text probes ++ rest) (p.text probes).length piece with frames := frames },
        (p.text probes).length⟩) :
    ∃ s', Takes probes s p rest s' ∧ s'.frames = frames := by
  obtain ⟨b, last, _⟩ := Part.getLast?_text probes p
  have nonempty : p.text probes ≠ [] := by
    intro empty
    simp [empty] at last
  refine ⟨_, ⟨found, previous_advance nonempty piece, rfl, rfl, ?_⟩, rfl⟩
  simp [State.remnants, State.advance, silent]

/-- What starts with a name is neither a closer nor a scope opener. -/
theorem bracket_eq_none (probes : Probes) (s : State) {name : Octets} (isName : IsName name) (rest : Octets) :
    closer? probes s (name ++ rest) = none ∧ scope? probes s (name ++ rest) = none := by
  obtain ⟨b, tail, rfl, word, _⟩ := isName
  have apart (c : UInt8) (other : isWordOctet c = false) : b ≠ c := by
    rintro rfl
    simp [word] at other
  exact ⟨closer?_eq_none (apart _ (by decide)) (apart _ (by decide)), scope?_eq_none (apart _ (by decide))⟩

theorem length_call (name digits closing : Octets) :
    (name ++ ascii '(' :: (digits ++ closing)).length = name.length + 1 + digits.length + closing.length := by
  simp only [List.length_append, List.length_cons]
  omega

theorem takes_checkpoint (identifiers : probes.names.AreIdentifiers) (start : atWordStart s.previous = true)
    (m : Marker) (rest : Octets) : ∃ s', Takes probes s (.checkpoint m) rest s' ∧ s'.frames = s.frames := by
  have closes : Utf8.encode "); " = [ascii ')', ascii ';', ascii ' '] := by decide
  have text : Part.text probes (.checkpoint m) = Utf8.encode probes.names.checkpoint ++
      ascii '(' :: (MarkerId.digits m.id ++ Utf8.encode "); ") := Probes.encode_checkpoint probes m.id
  have call := Probes.callAt?_eq_some probes.names.checkpoint closes (by decide) m.id rest
  obtain ⟨noCloser, noScope⟩ := bracket_eq_none probes s (isName_encode identifiers.1)
    (ascii '(' :: (MarkerId.digits m.id ++ (Utf8.encode "); " ++ rest)))
  refine takes_of_found (.checkpoint (MarkerId.digits m.id)) rfl ?_
  rw [text, length_call, List.append_assoc, List.cons_append, List.append_assoc, probe?, noCloser, noScope,
    if_pos start, checkpoint?, Probes.checkpointAt?, call]
  rfl

theorem takes_evaluation (identifiers : probes.names.AreIdentifiers) (start : atWordStart s.previous = true)
    {m : Marker} {type : EvaluationKind} (kind : m.kind = .evaluation type) (rest : Octets) :
    ∃ s', Takes probes s (.opener m) rest s' ∧
      s'.frames = ⟨.evaluation, s.parens, MarkerId.digits m.id, s.offset⟩ :: s.frames := by
  have closes : Utf8.encode ", (" = [ascii ',', ascii ' ', ascii '('] := by decide
  have closes' : Utf8.encode "); " = [ascii ')', ascii ';', ascii ' '] := by decide
  have text : Part.text probes (.opener m) = Utf8.encode probes.names.evaluation ++
      ascii '(' :: (MarkerId.digits m.id ++ Utf8.encode ", (") := by
    simp only [Part.text, kind, Probes.encode_evaluationOpen]
  have call := Probes.callAt?_eq_some probes.names.evaluation closes (by decide) m.id rest
  have other := Probes.callAt?_eq_none_of_closing (isName_encode identifiers.1) (isName_encode identifiers.2)
    closes' closes (by decide) (by decide) (by decide) m.id rest
  obtain ⟨noCloser, noScope⟩ := bracket_eq_none probes s (isName_encode identifiers.2)
    (ascii '(' :: (MarkerId.digits m.id ++ (Utf8.encode ", (" ++ rest)))
  refine takes_of_found (.evaluationOpen (MarkerId.digits m.id)) rfl ?_
  rw [text, length_call, List.append_assoc, List.cons_append, List.append_assoc, probe?, noCloser, noScope,
    if_pos start, checkpoint?, Probes.checkpointAt?, other, evaluation?, Probes.evaluationOpenAt?, call]
  rfl

theorem takes_scope {m : Marker} (kind : m.kind = .checkpoint) (rest : Octets) :
    ∃ s', Takes probes s (.opener m) rest s' ∧
      s'.frames = ⟨.scope, s.braces, MarkerId.digits m.id, s.offset⟩ :: s.frames := by
  have opening : Utf8.encode "\x7b " = [ascii '\x7b', ascii ' '] := by decide
  have closes : Utf8.encode "u); " = [ascii 'u', ascii ')', ascii ';', ascii ' '] := by decide
  have text : Part.text probes (.opener m) = Utf8.encode "\x7b " ++ (Utf8.encode probes.names.checkpoint ++
      ascii '(' :: (MarkerId.digits m.id ++ Utf8.encode "u); ")) := by
    simp only [Part.text, kind, Probes.encode_scopeOpen]
  have call := Probes.callAt?_eq_some probes.names.checkpoint closes (by decide) m.id rest
  have noCloser (behind : Octets) : closer? probes s (Utf8.encode "\x7b " ++ behind) = none := by
    rw [opening]
    exact closer?_eq_none (by decide) (by decide)
  refine takes_of_found (.scopeOpen (MarkerId.digits m.id)) rfl ?_
  rw [text, List.length_append, length_call, List.append_assoc, List.append_assoc, List.cons_append,
    List.append_assoc, probe?, noCloser, scope?, Probes.scopeOpenAt?]
  simp only [after?_append, bind, Option.bind_some, call]
  rfl

theorem takes_closer {m : Marker} {below : List (FrameKind × Nat)}
    (frames : s.frames.map Frame.mark = m.mark s.parens s.braces :: below) (rest : Octets) :
    ∃ s', Takes probes s (.closer m) rest s' ∧ s'.frames.map Frame.mark = below := by
  obtain ⟨top, others, split, mark, remaining⟩ := List.map_eq_cons_iff.mp frames
  have found (closer : Octets) := startsWith_append closer rest
  have depth : top.depth = (m.mark s.parens s.braces).2 := congrArg Prod.snd mark
  have kind : top.kind = (m.mark s.parens s.braces).1 := congrArg Prod.fst mark
  cases atKind : m.kind with
  | checkpoint =>
    simp only [Marker.mark, Marker.frameKind, FrameKind.depth, atKind] at depth kind
    obtain ⟨s', takes, rfl⟩ : ∃ s', Takes probes s (.closer m) rest s' ∧ s'.frames = others := by
      refine takes_of_found .scopeClose rfl ?_
      simp only [Part.text, atKind]
      simp [probe?, closer?, split, kind, depth, found]
    exact ⟨s', takes, remaining⟩
  | evaluation type =>
    simp only [Marker.mark, Marker.frameKind, FrameKind.depth, atKind] at depth kind
    obtain ⟨s', takes, rfl⟩ : ∃ s', Takes probes s (.closer m) rest s' ∧ s'.frames = others := by
      refine takes_of_found .evaluationClose rfl ?_
      simp only [Part.text, atKind]
      simp [probe?, closer?, split, kind, depth, found]
    exact ⟨s', takes, remaining⟩

end Stripping

namespace Arranged

variable {probes : Probes} {s : State} {last : Option Lexeme} {offset : Nat} {kind : TokenKind} {b : UInt8}
  {tail : Octets} {items : Arrangement}

/-- A brace that closes is a lexeme, because no part starts with one. -/
theorem lexeme_of_closeBrace (identifiers : probes.names.AreIdentifiers) (arranged : Arranged probes.names last items)
    {rest : Octets} (brace : items.text probes = ascii '\x7d' :: rest) :
    ∃ offset tail others, items = .lexeme ⟨offset, .closeBrace, ascii '\x7d' :: tail⟩ :: others := by
  cases arranged with
  | nil => cases brace
  | @lexeme _ offset kind b tail others read _ _ =>
    obtain rfl : b = ascii '\x7d' := (List.cons.inj brace).1
    rw [next_closeBrace] at read
    obtain ⟨rfl, _⟩ := Token.mk.inj read
    exact ⟨offset, tail, others, rfl⟩
  | @part _ p others _ _ _ =>
    exfalso
    obtain ⟨b, first, starts, _⟩ := Part.head?_text identifiers p
    have same : (p.text probes ++ Arrangement.text probes others).head? = some (ascii '\x7d') := by
      rw [← Arrangement.text_part, brace]
      rfl
    rw [List.head?_append, first] at same
    obtain rfl : b = ascii '\x7d' := by simpa using same
    revert starts
    simp [StartsProbe, isWordOctet, isAlphanumeric, isDigit, isLetter, ascii]

/-- A lexeme that could be taken for a closer stands at another depth. -/
theorem closer?_eq_none (identifiers : probes.names.AreIdentifiers)
    (arranged : Arranged probes.names last (.lexeme ⟨offset, kind, b :: tail⟩ :: items))
    (read : Token.next s.previous b (tail ++ items.text probes) = ⟨kind, tail.length + 1⟩)
    (closes : Arrangement.Closes (s.frames.map Frame.mark) s.parens s.braces
      (.lexeme ⟨offset, kind, b :: tail⟩ :: items)) :
    closer? probes s (b :: (tail ++ items.text probes)) = none := by
  obtain ⟨behind, evaluationClose, _⟩ := probes.encode_evaluationClose
  obtain ⟨apart, later⟩ := closes
  unfold closer?
  split
  · rfl
  · rename_i top below frames
    have head : (s.frames.map Frame.mark).head? = some (top.kind, top.depth) := by
      rw [frames]
      rfl
    cases atKind : top.kind with
    | evaluation =>
      simp only [evaluationClose, ite_eq_right_iff, reduceCtorEq, imp_false, Bool.and_eq_true, beq_iff_eq]
      rintro ⟨depth, starts⟩
      obtain ⟨rest, split⟩ := startsWith_iff.mp starts
      obtain rfl : b = ascii ')' := (List.cons.inj split).1
      rw [next_closeParen] at read
      obtain ⟨rfl, _⟩ := Token.mk.inj read
      exact apart .evaluation rfl (by rw [head, atKind, ← depth]; rfl)
    | scope =>
      simp only [Probes.encode_scopeClose, ite_eq_right_iff, reduceCtorEq, imp_false, Bool.and_eq_true, beq_iff_eq]
      rintro ⟨depth, starts⟩
      obtain ⟨rest, split⟩ := startsWith_iff.mp starts
      obtain ⟨rfl, second⟩ := List.cons.inj split
      rw [next_space] at read
      obtain ⟨rfl, length⟩ := Token.mk.inj read
      obtain rfl : tail = [] := List.length_eq_zero_iff.mp (by omega)
      cases arranged with
      | lexeme _ _ inner =>
        obtain ⟨offset', tail', others, rfl⟩ := inner.lexeme_of_closeBrace identifiers second
        exact later.1 .scope rfl (by rw [head, atKind, ← depth]; rfl)

/-- No part is the call inside a scope opener. -/
theorem callAt?_part (identifiers : probes.names.AreIdentifiers) (p : Part) (rest : Octets) :
    Probes.callAt? probes.names.checkpoint "u); " (p.text probes ++ rest) = none := by
  have isName := isName_encode identifiers.1
  have closes : Utf8.encode "u); " = [ascii 'u', ascii ')', ascii ';', ascii ' '] := by decide
  have checkpoint : Utf8.encode "); " = [ascii ')', ascii ';', ascii ' '] := by decide
  have evaluation : Utf8.encode ", (" = [ascii ',', ascii ' ', ascii '('] := by decide
  have apart (plain : p.isCall = false) :
      Probes.callAt? probes.names.checkpoint "u); " (p.text probes ++ rest) = none := by
    obtain ⟨b, first, _, other⟩ := Part.head?_text identifiers p
    refine Probes.callAt?_eq_none_of_head isName ?_
    intro c first'
    rw [List.head?_append, first] at first'
    cases first'
    exact Or.inl (other.trans plain)
  cases p with
  | checkpoint m =>
    rw [Part.text, Probes.encode_checkpoint, List.append_assoc, List.cons_append, List.append_assoc]
    exact Probes.callAt?_eq_none_of_closing isName isName closes checkpoint (by decide) (by decide) (by decide) _ _
  | closer m => exact apart rfl
  | opener m =>
    cases kind : m.kind with
    | checkpoint => exact apart (by simp [Part.isCall, Marker.isCheckpoint, kind])
    | evaluation type =>
      simp only [Part.text, kind]
      rw [Probes.encode_evaluationOpen, List.append_assoc, List.cons_append, List.append_assoc]
      exact Probes.callAt?_eq_none_of_closing isName (isName_encode identifiers.2) closes evaluation (by decide)
        (by decide) (by decide) _ _

/-- The call inside a scope opener stands nowhere by itself. -/
theorem callAt?_scope (identifiers : probes.names.AreIdentifiers) (arranged : Arranged probes.names last items) :
    Probes.callAt? probes.names.checkpoint "u); " (items.text probes) = none := by
  cases arranged with
  | nil => exact Probes.callAt?_eq_none_of_head (isName_encode identifiers.1) (by simp [Arrangement.text])
  | lexeme read word inner =>
    exact callAt?_eq_none identifiers (.lexeme read word inner) (Or.inl rfl) _
  | part _ _ _ => exact callAt?_part identifiers _ _

theorem callAt?_behind_space (identifiers : probes.names.AreIdentifiers)
    (arranged : Arranged probes.names last items) {rest : Octets} (space : items.text probes = ascii ' ' :: rest) :
    Probes.callAt? probes.names.checkpoint "u); " rest = none := by
  cases arranged with
  | nil => cases space
  | @lexeme _ _ kind b tail others read _ inner =>
    obtain ⟨rfl, behind⟩ := List.cons.inj space
    rw [next_space] at read
    obtain rfl : tail = [] := List.length_eq_zero_iff.mp (by have := (Token.mk.inj read).2; omega)
    rw [← behind]
    exact inner.callAt?_scope identifiers
  | @part _ p others _ _ _ =>
    -- Only the closer of a scope starts with a blank, and it goes on with a brace.
    obtain ⟨b, first, _, call⟩ := Part.head?_text identifiers p
    rw [Arrangement.text_part] at space
    obtain rfl : b = ascii ' ' := by
      have same := congrArg List.head? space
      rw [List.head?_append, first] at same
      simpa using same
    cases p with
    | checkpoint m => cases call
    | opener m =>
      cases kind : m.kind with
      | checkpoint =>
        have brace : (Utf8.encode "\x7b ").head? = some (ascii '\x7b') := by decide
        simp only [Part.text, kind, Probes.encode_scopeOpen, List.head?_append, brace] at first
        cases first
      | evaluation type =>
        simp only [Part.isCall, Marker.isCheckpoint, kind] at call
        cases call
    | closer m =>
      cases kind : m.kind with
      | checkpoint =>
        simp only [Part.text, kind, Probes.encode_scopeClose, List.cons_append] at space
        rw [← (List.cons.inj space).2]
        refine Probes.callAt?_eq_none_of_head (isName_encode identifiers.1) ?_
        rintro c ⟨⟩
        exact Or.inl (by decide)
      | evaluation type =>
        obtain ⟨behind, closes, _⟩ := probes.encode_evaluationClose
        simp only [Part.text, kind, closes] at first
        cases first

/-- No brace of the source opens a scope. -/
theorem scope?_eq_none (identifiers : probes.names.AreIdentifiers)
    (arranged : Arranged probes.names last (.lexeme ⟨offset, kind, b :: tail⟩ :: items)) :
    scope? probes s (b :: (tail ++ items.text probes)) = none := by
  by_cases brace : b = ascii '\x7b'
  · subst brace
    have opening : Utf8.encode "\x7b " = [ascii '\x7b', ascii ' '] := by decide
    cases arranged with
    | lexeme read _ inner =>
      rw [next_openBrace] at read
      obtain rfl : tail = [] := List.length_eq_zero_iff.mp (by have := (Token.mk.inj read).2; omega)
      rw [List.nil_append]
      cases found : after? (Utf8.encode "\x7b ") (ascii '\x7b' :: items.text probes) with
      | none => simp [scope?, Probes.scopeOpenAt?, found]
      | some rest =>
        have split := eq_append_of_after? found
        rw [opening] at split
        have absent : Probes.callAt? probes.names.checkpoint "u); " rest = none :=
          inner.callAt?_behind_space identifiers (List.cons.inj split).2
        simp [scope?, Probes.scopeOpenAt?, found, absent]
  · exact Stripping.scope?_eq_none brace

/-- At a lexeme of the source the stripper finds no part of a probe. -/
theorem probe?_eq_none (identifiers : probes.names.AreIdentifiers)
    (arranged : Arranged probes.names last (.lexeme ⟨offset, kind, b :: tail⟩ :: items))
    (read : Token.next s.previous b (tail ++ items.text probes) = ⟨kind, tail.length + 1⟩)
    (closes : Arrangement.Closes (s.frames.map Frame.mark) s.parens s.braces
      (.lexeme ⟨offset, kind, b :: tail⟩ :: items)) :
    probe? probes s (b :: (tail ++ items.text probes)) = none := by
  rw [probe?, arranged.closer?_eq_none identifiers read closes, arranged.scope?_eq_none identifiers, checkpoint?,
    Probes.checkpointAt?, arranged.callAt?_eq_none identifiers (Or.inl rfl), evaluation?,
    Probes.evaluationOpenAt?, arranged.callAt?_eq_none identifiers (Or.inr rfl)]
  simp

end Arranged

namespace Stripping

/-- The stripper stands between two items: in front of it is the rest of an arrangement, `last` is the last
lexeme behind it, and what it looks back at says the same about the next lexeme as the source does. -/
structure Aligned (probes : Probes) (last : Option Lexeme) (s : State) (items : Arrangement) : Prop where
  arranged : Arranged probes.names last items
  closes : Arrangement.Closes (s.frames.map Frame.mark) s.parens s.braces items
  previous : s.previous = lastOctet last ∨ (atWordStart s.previous = true ∧
    ¬ (lastOctet last = some (ascii 'R') ∧ items.source.head? = some (ascii '"')))
  read : ∀ l, last = some l → ∃ before b tail, l.text = b :: tail ∧
    Token.next before b (tail ++ items.source) = ⟨l.kind, tail.length + 1⟩

namespace Aligned

variable {probes : Probes} {last : Option Lexeme} {s : State} {items : Arrangement} {p : Part} {l : Lexeme}

/-- A word octet of the source comes first only where a word can start. -/
theorem atWordStart_lastOctet (aligned : Aligned probes last s items) {b : UInt8}
    (first : items.source.head? = some b) (word : isWordOctet b = true) : atWordStart (lastOctet last) = true := by
  cases last with
  | none => rfl
  | some l =>
    obtain ⟨before, c, tail, octets, read⟩ := aligned.read l rfl
    cases atLast : (c :: tail).getLast? with
    | none => simp at atLast
    | some x =>
      simp only [lastOctet, Option.bind_some, octets, atLast, atWordStart]
      by_contra inWord
      have apart := not_isWordOctet_head? read atLast (by simpa using inWord) first
      simp [word] at apart

/-- A call is inserted only where a word can start. -/
theorem atWordStart_previous (aligned : Aligned probes last s (.part p :: items)) (call : p.isCall = true) :
    atWordStart s.previous = true := by
  rcases aligned.previous with same | ⟨start, _⟩
  · rw [same]
    cases last with
    | none => rfl
    | some l =>
      obtain ⟨before, c, tail, octets, read⟩ := aligned.read l rfl
      obtain ⟨offset, kind, text⟩ := l
      obtain rfl : text = c :: tail := octets
      cases aligned.arranged with
      | part admits _ _ =>
        have admitted := admits _ rfl
        obtain ⟨notWord, notNumber⟩ := admitted.apart call
        cases atLast : (c :: tail).getLast? with
        | none => simp at atLast
        | some x =>
          have apart := not_isWordOctet_getLast? read admitted.closed admitted.inText notNumber notWord atLast
          simp [lastOctet, atLast, atWordStart, apart]
  · exact start

/-- A lexeme is kept. -/
theorem keep (identifiers : probes.names.AreIdentifiers) (aligned : Aligned probes last s (.lexeme l :: items)) :
    ∃ s', divide probes s (Arrangement.text probes (.lexeme l :: items)) = divide probes s' (items.text probes) ∧
      Aligned probes (some l) s' items ∧ s'.remnants = s.remnants ++ l.text := by
  have start {b : UInt8} := aligned.atWordStart_lastOctet (b := b)
  have inside : isWordOctet (ascii 'R') = true := by decide
  obtain ⟨arranged, closes, previous, _⟩ := aligned
  cases arranged with
  | @lexeme _ offset kind b tail _ read word inner =>
    have reading : Token.next s.previous b (tail ++ items.text probes) = ⟨kind, tail.length + 1⟩ := by
      refine Arranged.read identifiers (.lexeme read word inner) ?_ ?_
      · rintro rfl
        rcases previous with same | ⟨apart, notRaw⟩
        · rw [same]
        · constructor
          · exact fun raw => absurd ⟨raw, rfl⟩ notRaw
          · intro raw
            rw [raw] at apart
            simp [atWordStart, inside] at apart
      · intro digit
        rw [start rfl (by simp [isWordOctet, isAlphanumeric, digit])]
        rcases previous with same | ⟨apart, _⟩
        · rw [same, start rfl (by simp [isWordOctet, isAlphanumeric, digit])]
        · exact apart.symm
    have plain := Arranged.probe?_eq_none identifiers (.lexeme read word inner) reading closes
    refine ⟨s.keeping kind (b :: tail), divide_of_keep plain reading, ⟨inner, closes.2, Or.inl rfl, ?_⟩,
      remnants_keeping _ _ _⟩
    rintro l ⟨⟩
    exact ⟨lastOctet last, b, tail, rfl, read⟩

/-- A part is taken out, and the source behind it is read as before. -/
theorem take (identifiers : probes.names.AreIdentifiers) (aligned : Aligned probes last s (.part p :: items)) :
    ∃ s', divide probes s (Arrangement.text probes (.part p :: items)) = divide probes s' (items.text probes) ∧
      Aligned probes last s' items ∧ s'.remnants = s.remnants := by
  have start := aligned.atWordStart_previous
  obtain ⟨arranged, closes, _, read⟩ := aligned
  obtain ⟨x, atLast, apart⟩ := Part.getLast?_text probes p
  have nonempty : p.text probes ≠ [] := by
    intro empty
    simp [empty] at atLast
  cases arranged with
  | part admits notRaw inner =>
    have step {s' : State} (takes : Takes probes s p (items.text probes) s')
        (closes' : Arrangement.Closes (s'.frames.map Frame.mark) s'.parens s'.braces items) :
        ∃ s', divide probes s (Arrangement.text probes (.part p :: items)) = divide probes s' (items.text probes) ∧
          Aligned probes last s' items ∧ s'.remnants = s.remnants := by
      refine ⟨s', divide_of_probe? nonempty takes.found, ⟨inner, closes', Or.inr ⟨?_, notRaw⟩, read⟩, takes.remnants⟩
      rw [takes.previous, atLast]
      simp [atWordStart, apart]
    cases p with
    | checkpoint m =>
      obtain ⟨s', takes, frames⟩ := takes_checkpoint identifiers (start rfl) m (items.text probes)
      exact step takes (by rw [frames, takes.parens, takes.braces]; exact closes)
    | opener m =>
      cases kind : m.kind with
      | checkpoint =>
        obtain ⟨s', takes, frames⟩ := takes_scope kind (items.text probes)
        refine step takes ?_
        simp only [Arrangement.Closes, Marker.mark, Marker.frameKind, FrameKind.depth, kind] at closes
        rw [frames, takes.parens, takes.braces]
        exact closes
      | evaluation type =>
        have call : (Part.opener m).isCall = true := by simp [Part.isCall, Marker.isCheckpoint, kind]
        obtain ⟨s', takes, frames⟩ := takes_evaluation identifiers (start call) kind (items.text probes)
        refine step takes ?_
        simp only [Arrangement.Closes, Marker.mark, Marker.frameKind, FrameKind.depth, kind] at closes
        rw [frames, takes.parens, takes.braces]
        exact closes
    | closer m =>
      obtain ⟨below, frames, closes'⟩ := closes
      obtain ⟨s', takes, remaining⟩ := takes_closer frames (items.text probes)
      exact step takes (by rw [remaining, takes.parens, takes.braces]; exact closes')

/-- Dividing an arrangement leaves the source, with no probe open. -/
theorem divide (identifiers : probes.names.AreIdentifiers) (aligned : Aligned probes last s items) :
    (Stripping.divide probes s (items.text probes)).frames = [] ∧
      (Stripping.divide probes s (items.text probes)).remnants = s.remnants ++ items.source := by
  induction items generalizing last s with
  | nil =>
    have closed : s.frames = [] := List.map_eq_nil_iff.mp aligned.closes
    have ends : Stripping.divide probes s (Arrangement.text probes []) = s := by
      rw [Arrangement.text, List.flatMap_nil, Stripping.divide]
    rw [ends]
    exact ⟨closed, (List.append_nil _).symm⟩
  | cons item items ih =>
    cases item with
    | lexeme l =>
      obtain ⟨s', step, aligned', remnants⟩ := aligned.keep identifiers
      obtain ⟨frames, rest⟩ := ih aligned'
      rw [step]
      refine ⟨frames, ?_⟩
      rw [rest, remnants, Arrangement.source_lexeme, List.append_assoc]
    | part p =>
      obtain ⟨s', step, aligned', remnants⟩ := aligned.take identifiers
      obtain ⟨frames, rest⟩ := ih aligned'
      rw [step]
      refine ⟨frames, ?_⟩
      rw [rest, remnants, Arrangement.source_part]

end Aligned

end Stripping

end SourceCoverage
