import SourceCoverage.Proofs.Finder.Proper
import SourceCoverage.Proofs.Instrumented.Nesting

namespace SourceCoverage

namespace Finder

open Instrumenter

variable {source : Octets} {probes : Probes} {f g : Finding} {id id' : MarkerId} {findings : List Finding}
  {outer : Section}

theorem bracket?_marker (id : MarkerId) (f : Finding) : (f.marker id).bracket? = none ∨
    (f.marker id).bracket? = some f.sect := by
  cases f with
  | checkpoint sect braced =>
    cases braced with
    | false => exact Or.inl rfl
    | true => exact Or.inr rfl
  | evaluation sect kind => exact Or.inr rfl

theorem fits_marker (probes : Probes) (isIn : f.sect.IsIn source) : (ofSource source probes).Fits (f.marker id) := by
  have ordered : f.sect.start ≤ f.sect.stop := Position.le_iff_lt_or_eq.mpr (Or.inl isIn.nonempty)
  cases f with
  | checkpoint sect braced =>
    cases braced with
    | false => exact ⟨rfl, isIn.start⟩
    | true => exact ⟨ordered, isIn.start, isIn.stop⟩
  | evaluation sect kind => exact ⟨ordered, isIn.start, isIn.stop⟩

theorem compatible_marker (isIn : f.sect.IsIn source) (isIn' : g.sect.IsIn source) (apart : f.Apart g)
    (bracket : (f.marker id).bracket? = some f.sect) (bracket' : (g.marker id').bracket? = some g.sect) :
    Span.compatible ((ofSource source probes).spanOf (f.marker id))
      ((ofSource source probes).spanOf (g.marker id')) := by
  obtain ⟨start, stop⟩ := (fits_marker probes isIn).offsets bracket
  obtain ⟨start', stop'⟩ := (fits_marker probes isIn').offsets bracket'
  have le {p q : Position} {a b : Nat} (atP : (LineIndex.ofText source).offset? p = some a)
      (atQ : (LineIndex.ofText source).offset? q = some b) (before : p.toNat ≤ q.toNat) : a ≤ b :=
    LineIndex.offset?_le_offset? atP atQ (Position.le_iff_toNat.mpr before)
  have nested := apart.nested
  rw [Section.intersects_eq_false_iff, Section.contains_iff, Section.contains_iff] at nested
  unfold Span.compatible
  rcases nested with (before | before) | ⟨before, after⟩ | ⟨before, after⟩
  · exact Or.inr (Or.inl (le stop' start before))
  · exact Or.inl (le stop start' before)
  · exact Or.inr (Or.inr (Or.inl ⟨le start start' before, le stop' stop after⟩))
  · exact Or.inr (Or.inr (Or.inr ⟨le start' start before, le stop stop' after⟩))

/-- Markers in the source whose sections nest can be put into it, in any order. -/
theorem instrument_of_records {markers sorted : List Marker} (probes : Probes) (records : Records markers findings)
    (contained : Contained source outer findings) (same : sorted.Perm markers) :
    ∃ output, (ofSource source probes).instrument sorted = .ok output := by
  have fits : ∀ m ∈ sorted, (ofSource source probes).Fits m := by
    intro m member
    obtain ⟨f, inside, id, rfl⟩ := records.exists_finding (same.mem_iff.mp member)
    exact fits_marker probes (contained.sections f inside)
  have compatible : markers.Pairwise fun m n =>
      ∀ a ∈ m.bracket?.toList.map fun _ => (ofSource source probes).spanOf m,
        ∀ b ∈ n.bracket?.toList.map fun _ => (ofSource source probes).spanOf n, Span.compatible a b := by
    refine (records.pairwise (List.Pairwise.and_mem.mp contained.apart)).imp ?_
    rintro _ _ ⟨f, g, id, id', ⟨first, second, apart⟩, rfl, rfl⟩ a left b right
    obtain ⟨sect, bracket, rfl⟩ := List.mem_map.mp left
    obtain ⟨sect', bracket', rfl⟩ := List.mem_map.mp right
    rcases bracket?_marker id f with none | whole
    · simp [none] at bracket
    rcases bracket?_marker id' g with none | whole'
    · simp [none] at bracket'
    exact compatible_marker (contained.sections f first) (contained.sections g second) apart whole whole'
  have across := same.symm.pairwise compatible fun {_ _} pairs a left b right =>
    Span.compatible_comm.mp (pairs b right a left)
  refine ⟨_, instrument_eq_ok_iff.mpr ⟨fits, Span.firstCrossing?_of_compatible ?_, rfl⟩⟩
  refine List.pairwise_flatMap.mpr ⟨?_, across⟩
  intro m _
  cases m.bracket? <;> simp

/-- A walk over a proper tree enters all that is to be found in it. -/
theorem records_walk {root : SyntaxNode} (proper : Proper source root) (policy : DecisionPolicy) (hash : String) :
    (walk policy root { sourceHash := hash }).failure = none ∧
      Records (walk policy root { sourceHash := hash }).ledger.markers (nodeFindings policy false .nested root) :=
  records_of_distinct ((contained_walk proper policy).apart.imp fun apart => apart.distinct) hash

end Finder

/-- Whatever the policy, a walk over a proper tree fails nowhere, and what it enters can be put into the source. -/
theorem walk_proper (source : Octets) (root : SyntaxNode) (proper : Proper source root) (policy : DecisionPolicy)
    (hash : String) (probes : Probes) (preamble : String) :
    (Finder.walk policy root { sourceHash := hash }).failure = none ∧
      ∃ output, instrumentText probes preamble source
        (Finder.walk policy root { sourceHash := hash }).ledger.finalize.markers = .ok output := by
  obtain ⟨complete, records⟩ := Finder.records_walk proper policy hash
  refine ⟨complete, ?_⟩
  obtain ⟨output, made⟩ := Finder.instrument_of_records probes records (Finder.contained_walk proper policy)
    (List.mergeSort_perm _ _)
  exact ⟨Utf8.encode preamble ++ output, by rw [instrumentText, Ledger.finalize, made]; rfl⟩

/-- A function whose block runs a call if two conditions hold. -/
def guardedCall : SyntaxNode :=
  .node .unit .none ⟨⟨1, 1⟩, ⟨1, 14⟩⟩ [.node (.function false) .none ⟨⟨1, 1⟩, ⟨1, 14⟩⟩ [
    .node .compound .body ⟨⟨1, 2⟩, ⟨1, 14⟩⟩ [.node (.control .branch) .none ⟨⟨1, 3⟩, ⟨1, 13⟩⟩ [
      .node (.expression .parenthesized) .condition ⟨⟨1, 5⟩, ⟨1, 11⟩⟩ [
        .node (.expression .and) .none ⟨⟨1, 6⟩, ⟨1, 10⟩⟩ [
          .node (.expression .other) .left ⟨⟨1, 6⟩, ⟨1, 7⟩⟩ [],
          .node (.expression .other) .right ⟨⟨1, 9⟩, ⟨1, 10⟩⟩ []]],
      .node (.statement .expression) .consequence ⟨⟨1, 11⟩, ⟨1, 13⟩⟩ []]]]]

theorem walk_guardedCall :
    Proper (Utf8.encode "f\x7bif(a&&b)c;\x7d") guardedCall ∧
      (Finder.walk .allNodes guardedCall { sourceHash := "" }).failure = none ∧
      ∃ output, instrumentText {} "" (Utf8.encode "f\x7bif(a&&b)c;\x7d")
        (Finder.walk .allNodes guardedCall { sourceHash := "" }).ledger.finalize.markers = .ok output :=
  ⟨by decide, walk_proper _ guardedCall (by decide) .allNodes "" {} ""⟩

end SourceCoverage
