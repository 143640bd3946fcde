import SourceCoverage.Proofs.Stripping.Pieces

namespace SourceCoverage

open Octets Token

/-- Two lines that include a header and restore the line number. -/
structure IsPreamble (first second : Octets) : Prop where
  firstLine : newline ∉ first
  secondLine : newline ∉ second
  includes : startsWith (Utf8.encode "#include \"") first = true
  restores : startsWith (Utf8.encode "#line 1 \"") second = true

/-- What is left of a text behind the lines of a preamble, if it starts with them. The second line may end the
text. -/
inductive BehindPreamble : Octets → Octets → Prop
  | lines {first second rest : Octets} : IsPreamble first second →
      BehindPreamble (first ++ newline :: (second ++ newline :: rest)) rest
  | ends {first second : Octets} : IsPreamble first second → BehindPreamble (first ++ newline :: second) []
  | plain {text : Octets} :
      (∀ first second rest, IsPreamble first second → text ≠ first ++ newline :: (second ++ rest)) →
      BehindPreamble text text

theorem newline_notMem_line (text : Octets) : newline ∉ text.takeWhile (· != newline) := by
  intro member
  simpa using List.mem_takeWhile_imp member

/-- A text is one line, or a line with a newline behind it. -/
theorem line_cases (text : Octets) : text = text.takeWhile (· != newline) ∨
    ∃ rest, text = text.takeWhile (· != newline) ++ newline :: rest := by
  have whole := List.takeWhile_append_dropWhile (p := (· != newline)) (l := text)
  cases behind : text.dropWhile (· != newline) with
  | nil =>
    rw [behind, List.append_nil] at whole
    exact Or.inl whole.symm
  | cons c rest =>
    have stop := List.head?_dropWhile_not (· != newline) text
    obtain rfl : c = newline := by simpa [behind] using stop
    rw [behind] at whole
    exact Or.inr ⟨rest, whole.symm⟩

theorem withoutPreamble_line {line : Octets} (oneLine : newline ∉ line) (below : Octets) :
    withoutPreamble (line ++ newline :: below) =
      if startsWith (Utf8.encode "#include \"") line &&
          startsWith (Utf8.encode "#line 1 \"") (below.takeWhile (· != newline)) then
        (below.drop (below.takeWhile (· != newline)).length).drop 1
      else line ++ newline :: below := by
  have shorter : line.length < (line ++ newline :: below).length := by simp
  simp only [withoutPreamble, takeWhile_line oneLine, List.drop_left, List.drop_succ_cons, List.drop_zero,
    decide_eq_true shorter, Bool.true_and]

/-- The second line may go on behind what is given of it. -/
theorem IsPreamble.restores_line {first second : Octets} (preamble : IsPreamble first second) (rest : Octets) :
    startsWith (Utf8.encode "#line 1 \"") ((second ++ rest).takeWhile (· != newline)) = true := by
  obtain ⟨behind, restores⟩ := startsWith_iff.mp preamble.restores
  have inLine : ∀ b ∈ second, (b != newline) = true := by
    intro b member
    rw [bne_iff_ne]
    rintro rfl
    exact preamble.secondLine member
  rw [List.takeWhile_append_of_pos inLine, restores, List.append_assoc]
  exact startsWith_append _ _

theorem behindPreamble_withoutPreamble (text : Octets) : BehindPreamble text (withoutPreamble text) := by
  rcases line_cases text with oneLine | ⟨below, split⟩
  · have absent : newline ∉ text := by
      rw [oneLine]
      exact newline_notMem_line text
    have whole : withoutPreamble text = text := by simp [withoutPreamble, ← oneLine]
    rw [whole]
    refine .plain fun first second rest _ same => absent ?_
    simp [same]
  · generalize atFirst : text.takeWhile (· != newline) = first at split
    have firstLine : newline ∉ first := by
      rw [← atFirst]
      exact newline_notMem_line text
    rw [split, withoutPreamble_line firstLine]
    split_ifs with found
    · obtain ⟨includes, restores⟩ := Bool.and_eq_true_iff.mp found
      have preamble : IsPreamble first (below.takeWhile (· != newline)) :=
        ⟨firstLine, newline_notMem_line below, includes, restores⟩
      have secondLine := line_cases below
      generalize below.takeWhile (· != newline) = second at preamble secondLine ⊢
      rcases secondLine with rfl | ⟨rest, rfl⟩
      · rw [List.drop_length, List.drop_nil]
        exact .ends preamble
      · rw [List.drop_left, List.drop_succ_cons, List.drop_zero]
        exact .lines preamble
    · refine .plain fun first' second rest preamble same => found ?_
      obtain rfl : first = first' := by
        have lines := congrArg (List.takeWhile (· != newline)) same
        rwa [takeWhile_line firstLine, takeWhile_line preamble.firstLine] at lines
      obtain rfl : below = second ++ rest := by simpa using same
      rw [preamble.includes, preamble.restores_line rest]
      rfl

/-- Behind a preamble the text goes on as a text. -/
theorem BehindPreamble.exists_encode {text : String} {body : Octets}
    (behind : BehindPreamble (Utf8.encode text) body) :
    ∃ s, body = Utf8.encode s := by
  have line : Utf8.encode "\n" = [newline] := by decide
  generalize octets : Utf8.encode text = whole at behind
  cases behind with
  | @lines first second _ _ =>
    have split : Utf8.encode text = (first ++ newline :: second) ++ (Utf8.encode "\n" ++ body) := by
      rw [octets, line]
      simp
    exact (Utf8.encode_eq_append (by decide) split).2
  | ends _ => exact ⟨"", Utf8.encode_empty.symm⟩
  | plain _ => exact ⟨text, octets.symm⟩

theorem IsNumber.exists_encode {digits : Octets} (number : IsNumber digits) : ∃ s, digits = Utf8.encode s := by
  refine Utf8.exists_encode_of_ascii fun b member => ?_
  have digit := number.2 b member
  simp only [isDigit, Bool.and_eq_true, decide_eq_true_eq, UInt8.le_iff_toNat_le, UInt8.reduceToNat] at digit
  omega

namespace Piece

/-- A piece is kept, or it is the encoding of a string and nothing of it is left. -/
theorem remnant_cases (probes : Probes) {p : Piece} (numbered : p.IsNumbered) :
    p.remnant = p.text probes ∨ p.remnant = [] ∧ ∃ s, s ≠ "" ∧ p.text probes = Utf8.encode s := by
  have filled {octets : Octets} (nonempty : octets ≠ []) (spelled : ∃ s, octets = Utf8.encode s) :
      ∃ s, s ≠ "" ∧ octets = Utf8.encode s := by
    obtain ⟨s, rfl⟩ := spelled
    refine ⟨s, ?_, rfl⟩
    rintro rfl
    exact nonempty Utf8.encode_empty
  have call (name : String) {id : Octets} (after : String) (number : IsNumber id) :
      ∃ s, Probes.callText name id after = Utf8.encode s := by
    have bracket : Utf8.encode "(" = [ascii '('] := by decide
    obtain ⟨digits, rfl⟩ := number.exists_encode
    exact ⟨name ++ "(" ++ digits ++ after, by simp [Probes.callText, bracket]⟩
  cases p with
  | kept text => exact Or.inl rfl
  | checkpoint id => exact Or.inr ⟨rfl, filled (Probes.callText_ne_nil _ _ _) (call _ _ (numbered id rfl))⟩
  | evaluationOpen id => exact Or.inr ⟨rfl, filled (Probes.callText_ne_nil _ _ _) (call _ _ (numbered id rfl))⟩
  | scopeOpen id =>
    obtain ⟨s, spelled⟩ := call probes.names.checkpoint "u); " (numbered id rfl)
    refine Or.inr ⟨rfl, filled ?_ ⟨"\x7b " ++ s, ?_⟩⟩
    · simp [text, Probes.callText_ne_nil]
    · rw [text, spelled, Utf8.encode_append]
  | scopeClose =>
    refine Or.inr ⟨rfl, filled ?_ ⟨_, rfl⟩⟩
    simp [text, Probes.encode_scopeClose]
  | evaluationClose =>
    obtain ⟨behind, closes, _⟩ := probes.encode_evaluationClose
    refine Or.inr ⟨rfl, filled ?_ ⟨_, rfl⟩⟩
    simp [text, closes]

/-- What is left of a text when parts of probes are taken out of it is a text. The pieces that are kept need not be
texts by themselves, so that `front` collects them. -/
theorem exists_encode_remnants {probes : Probes} {pieces : List Piece} (numbered : ∀ p ∈ pieces, p.IsNumbered)
    {whole : String} {front : Octets} (split : Utf8.encode whole = front ++ pieces.flatMap (text probes)) :
    ∃ s, front ++ pieces.flatMap remnant = Utf8.encode s := by
  induction pieces generalizing whole front with
  | nil => exact ⟨whole, split.symm⟩
  | cons p pieces ih =>
    obtain ⟨own, others⟩ := List.forall_mem_cons.mp numbered
    rw [List.flatMap_cons] at split ⊢
    rcases remnant_cases probes own with kept | ⟨removed, inner, nonempty, spelled⟩
    · rw [kept, ← List.append_assoc]
      rw [← List.append_assoc] at split
      exact ih others split
    · rw [spelled] at split
      obtain ⟨⟨before, atFront⟩, behind, rest⟩ := Utf8.encode_eq_append nonempty split
      have joined : Utf8.encode (before ++ behind) = front ++ pieces.flatMap (text probes) := by
        rw [Utf8.encode_append, atFront, rest]
      rw [removed, List.nil_append]
      exact ih others joined

end Piece

namespace Stripping

/-- The pieces into which a text is divided, in the order of the text. -/
def pieces (probes : Probes) (body : Octets) : List Piece := (divide probes {} body).pieces.reverse

/-- The loop never leaves the text. At every place to which it comes, what is in front of it and the octet it looks
back at are those of the text, and the round that follows takes at least one octet and no more than there are. -/
def StaysInside (probes : Probes) (body : Octets) : Prop :=
  ∀ s b rest, Reaches probes body s (b :: rest) →
    body = body.take s.offset ++ b :: rest ∧ s.previous = (body.take s.offset).getLast? ∧
      1 ≤ (round probes s b rest).length ∧ (round probes s b rest).length ≤ (b :: rest).length

theorem staysInside (probes : Probes) (body : Octets) : StaysInside probes body := by
  intro s b rest reaches
  have divided := reaches.divided
  obtain ⟨piece, behind, consumes⟩ := round_consumes probes s b rest
  have taken : body.take s.offset = s.consumed probes := by
    rw [divided.offset, divided.whole_eq, List.take_left]
  have size := congrArg List.length consumes.split
  rw [List.length_append] at size
  rw [taken, consumes.length]
  refine ⟨divided.whole_eq, divided.previous, List.length_pos_iff.mpr consumes.nonempty, ?_⟩
  omega

theorem divided_divide (probes : Probes) (body : Octets) : Divided probes body (divide probes {} body) [] :=
  (Reaches.start.divide).divided

end Stripping

open Stripping

theorem stripText_eq (probes : Probes) (text : String) :
    stripText probes text = match (divide probes {} (withoutPreamble (Utf8.encode text))).frames with
      | top :: _ => .error ⟨Utf8.decodeLossy top.id, top.offset⟩
      | [] =>
        .ok (Utf8.decodeLossy ((pieces probes (withoutPreamble (Utf8.encode text))).flatMap Piece.remnant)) := by
  simp only [stripText, strip]
  cases (divide probes {} (withoutPreamble (Utf8.encode text))).frames <;> rfl

/-- Stripping comes to an end inside every text and removes nothing but probes. The pieces of the body are the body,
and those which are not kept are whole parts of probes. If there is a result, every opener has its closer, and the
octets of the result are those of the pieces that are kept; if not, the last opener that has no closer is named by its
id and by its place in the body. -/
theorem stripText_outcome (probes : Probes) (text : String) :
    let body := withoutPreamble (Utf8.encode text)
    BehindPreamble (Utf8.encode text) body ∧
      StaysInside probes body ∧ Reaches probes body (divide probes {} body) [] ∧
      body = (pieces probes body).flatMap (Piece.text probes) ∧ (∀ p ∈ pieces probes body, p.IsNumbered) ∧
      match stripText probes text with
      | .ok stripped =>
        Piece.Nested (pieces probes body) ∧ Utf8.encode stripped = (pieces probes body).flatMap Piece.remnant
      | .error unclosed => ∃ (before after : List Piece) (kind : FrameKind) (id : Octets) (frames : List Frame),
        pieces probes body = before ++ kind.opener id :: after ∧ Opened probes frames before ∧ Piece.Nested after ∧
          Utf8.encode unclosed.id = id ∧ unclosed.offset = (before.flatMap (Piece.text probes)).length := by
  intro body
  have behind : BehindPreamble (Utf8.encode text) body := behindPreamble_withoutPreamble _
  have divided := divided_divide probes body
  have whole : body = (pieces probes body).flatMap (Piece.text probes) := by
    have split := divided.whole_eq
    rwa [List.append_nil] at split
  have numbered : ∀ p ∈ pieces probes body, p.IsNumbered := by
    intro p member
    exact divided.numbered p (List.mem_reverse.mp member)
  have opened : Opened probes (divide probes {} body).frames (pieces probes body) := divided.opened
  refine ⟨behind, staysInside probes body, Reaches.start.divide, whole, numbered, ?_⟩
  rw [stripText_eq]
  cases frames : (divide probes {} body).frames with
  | nil =>
    rw [frames] at opened
    cases opened with
    | closed nested =>
      obtain ⟨source, spelled⟩ := behind.exists_encode
      have split : Utf8.encode source = [] ++ (pieces probes body).flatMap (Piece.text probes) := by
        rw [← spelled]
        exact whole
      obtain ⟨stripped, left⟩ := Piece.exists_encode_remnants numbered split
      rw [List.nil_append] at left
      refine ⟨nested, ?_⟩
      rw [left, Utf8.decodeLossy_encode]
  | cons top below =>
    rw [frames] at opened
    generalize pieces probes body = all at numbered opened
    cases opened with
    | @opener _ before after _ outside start nested =>
      have number := numbered (top.kind.opener top.id) (by simp) top.id (Piece.id?_opener _ _)
      obtain ⟨digits, spelled⟩ := number.exists_encode
      refine ⟨before, after, top.kind, top.id, below, rfl, outside, nested, ?_, start⟩
      rw [spelled, Utf8.decodeLossy_encode]

end SourceCoverage
