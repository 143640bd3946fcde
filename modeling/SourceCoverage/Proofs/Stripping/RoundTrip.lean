import SourceCoverage.Proofs.Stripping.Balance

namespace SourceCoverage

open Octets Token Stripping

theorem newline_notMem_quotedPath {path : Path} (onOneLine : '\n' ∉ path.text.toList) :
    '\n' ∉ (quotedPath path).toList := by
  rw [quotedPath, String.toList_ofList, List.mem_flatMap]
  rintro ⟨c, member, inside⟩
  split at inside
  · rcases List.mem_cons.mp inside with backslash | same
    · cases backslash
    · rw [List.mem_singleton] at same
      exact onOneLine (same ▸ member)
  · rw [List.mem_singleton] at inside
    exact onOneLine (inside ▸ member)

/-- Two lines that look like a preamble are taken off. -/
theorem withoutPreamble_append {first second : Octets} (firstLine : newline ∉ first) (secondLine : newline ∉ second)
    (includes : startsWith (Utf8.encode "#include \"") first = true)
    (restores : startsWith (Utf8.encode "#line 1 \"") second = true) (text : Octets) :
    withoutPreamble (first ++ newline :: (second ++ newline :: text)) = text := by
  have shorter : first.length < (first ++ newline :: (second ++ newline :: text)).length := by
    rw [List.length_append, List.length_cons]
    omega
  simp only [withoutPreamble, takeWhile_line firstLine, List.drop_left, List.drop_succ_cons, List.drop_zero,
    takeWhile_line secondLine, includes, restores, decide_eq_true shorter, Bool.and_self, if_true]

theorem withoutPreamble_preamble {header input : Path} (headerLine : '\n' ∉ header.text.toList)
    (inputLine : '\n' ∉ input.text.toList) (text : Octets) :
    withoutPreamble (Utf8.encode (preamble header input) ++ text) = text := by
  have lines : Utf8.encode (preamble header input) ++ text =
      Utf8.encode ("#include \"" ++ quotedPath header ++ "\"") ++
        newline :: (Utf8.encode ("#line 1 \"" ++ quotedPath input ++ "\"") ++ newline :: text) := by
    have first : Utf8.encode "\"\n#line 1 \"" = Utf8.encode "\"" ++ newline :: Utf8.encode "#line 1 \"" := by decide
    have last : Utf8.encode "\"\n" = Utf8.encode "\"" ++ [newline] := by decide
    simp [preamble, first, last]
  have inLine (opening : String) {path : Path} (plain : '\n' ∉ opening.toList)
      (onOneLine : '\n' ∉ path.text.toList) : newline ∉ Utf8.encode (opening ++ quotedPath path ++ "\"") := by
    refine newline_notMem_encode ?_
    simp [plain, newline_notMem_quotedPath onOneLine]
  rw [lines]
  refine withoutPreamble_append (inLine _ (by decide) headerLine) (inLine _ (by decide) inputLine) ?_ ?_ text
  · rw [Utf8.encode_append, Utf8.encode_append, List.append_assoc]
    exact startsWith_append _ _
  · rw [Utf8.encode_append, Utf8.encode_append, List.append_assoc]
    exact startsWith_append _ _

theorem strip_of_divide {probes : Probes} {header input : Path} {text source : Octets}
    (headerLine : '\n' ∉ header.text.toList) (inputLine : '\n' ∉ input.text.toList)
    (divided : (divide probes {} text).frames = [] ∧ (divide probes {} text).remnants = source) :
    strip probes (Utf8.encode (preamble header input) ++ text) = .ok source := by
  obtain ⟨frames, rfl⟩ := divided
  simp only [strip, withoutPreamble_preamble headerLine inputLine, frames]
  rfl

namespace Instrumenter

/-- No word of the source is the name of a probe. Every part stands where a lexeme ends that it does not
extend, and not between an `R` and a quote. -/
structure Separated (i : Instrumenter) (markers : List Marker) : Prop where
  words : ∀ l ∈ scan none 0 i.source, l.kind = .word →
    l.text ≠ Utf8.encode i.probes.names.checkpoint ∧ l.text ≠ Utf8.encode i.probes.names.evaluation
  boundaries : ∀ m ∈ markers, ∀ p ∈ m.parts,
    i.placeOf p = 0 ∨ ∃ l ∈ scan none 0 i.source, l.stop = i.placeOf p ∧ l.Admits p
  raw : ∀ m ∈ markers, ∀ p ∈ m.parts, ¬ ((i.source.take (i.placeOf p)).getLast? = some (ascii 'R') ∧
    (i.source.drop (i.placeOf p)).head? = some (ascii '"'))

instance (i : Instrumenter) (markers : List Marker) : Decidable (i.Separated markers) :=
  decidable_of_iff
    ((∀ l ∈ scan none 0 i.source, l.kind = .word →
        l.text ≠ Utf8.encode i.probes.names.checkpoint ∧ l.text ≠ Utf8.encode i.probes.names.evaluation) ∧
      (∀ m ∈ markers, ∀ p ∈ m.parts,
        i.placeOf p = 0 ∨ ∃ l ∈ scan none 0 i.source, l.stop = i.placeOf p ∧ l.Admits p) ∧
      ∀ m ∈ markers, ∀ p ∈ m.parts, ¬ ((i.source.take (i.placeOf p)).getLast? = some (ascii 'R') ∧
        (i.source.drop (i.placeOf p)).head? = some (ascii '"')))
    ⟨fun ⟨words, boundaries, raw⟩ => ⟨words, boundaries, raw⟩,
      fun ⟨words, boundaries, raw⟩ => ⟨words, boundaries, raw⟩⟩

/-- Inside every evaluation the parentheses, and inside every scope the braces, are balanced. -/
def IsBalanced (i : Instrumenter) (markers : List Marker) : Prop :=
  ∀ m ∈ markers, m.bracket?.isSome = true → BalancedWithin i (scan none 0 i.source) m

instance (i : Instrumenter) (markers : List Marker) : Decidable (i.IsBalanced markers) :=
  inferInstanceAs (Decidable (∀ m ∈ markers, m.bracket?.isSome = true → BalancedWithin i (scan none 0 i.source) m))

theorem Separated.merging {i : Instrumenter} {markers : List Marker} (separated : i.Separated markers) :
    Merging i none 0 i.source (i.sortedParts markers) (scan none 0 i.source) where
  scanned := scanned_scan none 0 i.source
  ahead := rfl
  behind := rfl
  sorted := sortedParts_placed
  placed p member := by
    obtain ⟨m, atM, part⟩ := mem_sortedParts.mp member
    rcases separated.boundaries m atM p part with start | found
    · exact Or.inl ⟨start, by simp⟩
    · exact Or.inr found

/-- The source with its parts leaves the source when it is divided. -/
theorem Separated.divide_splice {i : Instrumenter} {markers : List Marker} (separated : i.Separated markers)
    (identifiers : i.probes.names.AreIdentifiers) (nested : WellNested (i.sortedParts markers))
    (balanced : i.IsBalanced markers) :
    let text := Insertion.splice 0 i.source ((i.sortedParts markers).map i.insertionOf)
    (divide i.probes {} text).frames = [] ∧ (divide i.probes {} text).remnants = i.source := by
  have merging := separated.merging
  have matched : Matches [] (i.sortedParts markers) := by
    have empty : Matches [] [] := rfl
    simpa using nested.matches_append empty
  have closes : Arrangement.Closes [] 0 0 (i.arrange (i.sortedParts markers) (scan none 0 i.source)) := by
    refine closes_arrange merging matched .nil ?_
    intro m member
    obtain ⟨atM, bracket⟩ := opener_mem_sortedParts.mp member
    exact balanced m atM (Option.isSome_iff_exists.mpr bracket)
  have arranged : Arranged i.probes.names none (i.arrange (i.sortedParts markers) (scan none 0 i.source)) := by
    refine arranged_arrange merging separated.words ?_
    intro p member
    obtain ⟨m, atM, part⟩ := mem_sortedParts.mp member
    exact separated.raw m atM p part
  have aligned : Aligned i.probes none {} (i.arrange (i.sortedParts markers) (scan none 0 i.source)) :=
    ⟨arranged, closes, Or.inl rfl, by simp⟩
  have divided := aligned.divide identifiers
  rw [text_arrange merging, source_arrange, merging.scanned.flatMap_text] at divided
  exact divided

end Instrumenter

/-- Stripping gives back the source of an instrumented text. -/
theorem strip_instrumentText (probes : Probes) (header input : Path) (source : Octets) (markers : List Marker)
    (output : Octets) (accepted : instrumentText probes (preamble header input) source markers = .ok output)
    (identifiers : probes.names.AreIdentifiers) (headerLine : '\n' ∉ header.text.toList)
    (inputLine : '\n' ∉ input.text.toList) (unambiguous : Unambiguous markers)
    (separated : (Instrumenter.ofSource source probes).Separated markers)
    (balanced : (Instrumenter.ofSource source probes).IsBalanced markers) :
    strip probes output = .ok source ∧
      ∀ original instrumented : String, source = Utf8.encode original → output = Utf8.encode instrumented →
        stripText probes instrumented = .ok original := by
  have stripped : strip probes output = .ok source := by
    unfold instrumentText at accepted
    cases made : (Instrumenter.ofSource source probes).instrument markers with
    | error fault => simp [made, Except.map] at accepted
    | ok text =>
      simp only [made, Except.map, Except.ok.injEq] at accepted
      obtain ⟨fits, uncrossed, rfl⟩ := Instrumenter.instrument_eq_ok_iff.mp made
      have nested := (Instrumenter.sortedParts_noncrossing fits uncrossed unambiguous).wellNested
      rw [← accepted]
      exact strip_of_divide headerLine inputLine (separated.divide_splice identifiers nested balanced)
  refine ⟨stripped, ?_⟩
  rintro original instrumented rfl rfl
  rw [stripText, stripped, Except.map, Utf8.decodeLossy_encode]

/-- A condition with a bracket in a literal, and a statement that is braced to hold its checkpoint. -/
theorem strip_instrumentText_braced :
    stripText {} ("#include \"cov.h\"\n#line 1 \"a\\\"b.c\"\n" ++
      "if (__coveron_evaluation(1, (a(\")\")) ? 1 : 0)) \x7b __coveron_checkpoint(2u); b; \x7d") =
        .ok "if (a(\")\")) b;" := by
  let markers : List Marker :=
    [.evaluation 1 ⟨⟨1, 5⟩, ⟨1, 11⟩⟩ .condition, ⟨2, .checkpoint, .point ⟨1, 13⟩, some ⟨1, 15⟩⟩]
  have accepted : instrumentText {} (preamble ⟨"cov.h"⟩ ⟨"a\"b.c"⟩) (Utf8.encode "if (a(\")\")) b;") markers =
      .ok (Utf8.encode ("#include \"cov.h\"\n#line 1 \"a\\\"b.c\"\n" ++
        "if (__coveron_evaluation(1, (a(\")\")) ? 1 : 0)) \x7b __coveron_checkpoint(2u); b; \x7d")) := by
    let condition : Marker := .evaluation 1 ⟨⟨1, 5⟩, ⟨1, 11⟩⟩ .condition
    let checkpoint : Marker := ⟨2, .checkpoint, .point ⟨1, 13⟩, some ⟨1, 15⟩⟩
    refine (instrumentText_of_sorted _ [.opener condition, .closer condition, .opener checkpoint, .closer checkpoint]
      (by decide) (by decide +kernel) (by decide +kernel) (by decide +kernel) (by decide +kernel)).trans ?_
    decide +kernel
  have lexemes : scan none 0 (Instrumenter.ofSource (Utf8.encode "if (a(\")\")) b;") {}).source =
      [⟨0, .word, [105, 102]⟩, ⟨2, .other, [32]⟩, ⟨3, .openParen, [40]⟩, ⟨4, .word, [97]⟩, ⟨5, .openParen, [40]⟩,
        ⟨6, .quoted, [34, 41, 34]⟩, ⟨9, .closeParen, [41]⟩, ⟨10, .closeParen, [41]⟩, ⟨11, .other, [32]⟩,
        ⟨12, .word, [98]⟩, ⟨13, .other, [59]⟩] := by decide +kernel
  have unambiguous : Unambiguous markers :=
    { nonempty := by simp [markers, Marker.bracket?, Marker.evaluation, Marker.scope?, Marker.extent?,
        Marker.start, Location.start]
      evaluations := by simp [markers, Marker.evaluation]
      checkpoints := by simp [markers, Marker.evaluation]
      scopes := by simp [markers, Marker.evaluation, Marker.scope?, Marker.extent?, Marker.start, Location.start] }
  have separated : (Instrumenter.ofSource (Utf8.encode "if (a(\")\")) b;") {}).Separated markers := by
    refine ⟨?_, ?_, by decide⟩ <;> rw [lexemes] <;> decide
  have balanced : (Instrumenter.ofSource (Utf8.encode "if (a(\")\")) b;") {}).IsBalanced markers := by
    rw [Instrumenter.IsBalanced, lexemes]
    decide
  exact (strip_instrumentText {} ⟨"cov.h"⟩ ⟨"a\"b.c"⟩ _ markers _ accepted ⟨by decide, by decide⟩ (by decide)
    (by decide) unambiguous separated balanced).2 _ _ rfl rfl

end SourceCoverage
