import SourceCoverage.Proofs.Instrumented.Nesting

namespace SourceCoverage

namespace Instrumenter

variable {i : Instrumenter} {markers markers' : List Marker}

theorem sortedParts_of_perm (permuted : markers.Perm markers') (distinct : (markers.map Marker.id).Nodup) :
    i.sortedParts markers = i.sortedParts markers' := by
  have distinct' : (markers'.map Marker.id).Nodup := (permuted.map _).nodup_iff.mp distinct
  exact eq_sortedParts distinct' (sortedParts_perm.trans (permuted.flatMap_right _)) sortedParts_sorted

theorem firstCrossing?_of_perm (permuted : markers.Perm markers') :
    Span.firstCrossing? (i.spans markers) = none ↔ Span.firstCrossing? (i.spans markers') = none := by
  have same : (i.spans markers).Perm (i.spans markers') := permuted.flatMap_right _
  simp only [Span.firstCrossing?_eq_none_iff, same.mem_iff]

theorem instrument_of_perm (permuted : markers.Perm markers') (distinct : (markers.map Marker.id).Nodup)
    {output : Octets} : i.instrument markers = .ok output ↔ i.instrument markers' = .ok output := by
  rw [instrument_eq_ok_iff, instrument_eq_ok_iff, firstCrossing?_of_perm permuted,
    sortedParts_of_perm permuted distinct]
  simp only [permuted.mem_iff]

end Instrumenter

/-- Markers with different ids may be given in any order: whether a text can be instrumented with them does not depend
on it, and neither does the text that comes out. -/
theorem instrumentText_of_perm (probes : Probes) (preamble : String) (source : Octets)
    (markers markers' : List Marker) (permuted : markers.Perm markers') (distinct : (markers.map Marker.id).Nodup)
    (output : Octets) :
    instrumentText probes preamble source markers = .ok output ↔
      instrumentText probes preamble source markers' = .ok output := by
  simp only [instrumentText_eq_ok_iff, Instrumenter.instrument_of_perm permuted distinct]

/-- A braced statement, its decision and two conditions, given from the inside out. -/
theorem instrumentText_of_perm_reversed :
    let markers : List Marker := [{ Marker.checkpoint 4 ⟨1, 1⟩ with scopeEnd := some ⟨1, 8⟩ },
      .evaluation 9 ⟨⟨1, 1⟩, ⟨1, 7⟩⟩ .decision, .evaluation 2 ⟨⟨1, 1⟩, ⟨1, 2⟩⟩ .condition,
      .evaluation 5 ⟨⟨1, 6⟩, ⟨1, 7⟩⟩ .condition]
    instrumentText {} "" (Utf8.encode "a && b;") markers.reverse = .ok (Utf8.encode
      ("\x7b __coveron_checkpoint(4u); __coveron_evaluation(9, (__coveron_evaluation(2, (a) ? 1 : 0) && " ++
        "__coveron_evaluation(5, (b) ? 1 : 0)) ? 1 : 0); \x7d")) := by
  intro markers
  let checkpoint : Marker := { Marker.checkpoint 4 ⟨1, 1⟩ with scopeEnd := some ⟨1, 8⟩ }
  let decision : Marker := .evaluation 9 ⟨⟨1, 1⟩, ⟨1, 7⟩⟩ .decision
  let first : Marker := .evaluation 2 ⟨⟨1, 1⟩, ⟨1, 2⟩⟩ .condition
  let second : Marker := .evaluation 5 ⟨⟨1, 6⟩, ⟨1, 7⟩⟩ .condition
  refine (instrumentText_of_perm {} "" _ markers markers.reverse (List.reverse_perm _).symm (by decide) _).mp ?_
  refine (instrumentText_of_sorted "" [.opener checkpoint, .opener decision, .opener first, .closer first,
    .opener second, .closer second, .closer decision, .closer checkpoint] (by decide) (by decide +kernel)
    (by decide +kernel) (by decide +kernel) (by decide +kernel)).trans ?_
  decide +kernel

end SourceCoverage
