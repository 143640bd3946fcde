import SourceCoverage.Proofs.Reuse.Pair
import SourceCoverage.Proofs.SourceFile

namespace SourceCoverage

open SourceCoverage.Path Staging Workspace

/-- Where a named file of a directory lies, and where files that wait for it lie. -/
theorem target_join (w : Workspace) (directory : Path) {name : String} (noSlash : '/' ∉ name.toList)
    (mark : '_' ∈ name.toList) :
    let above := Disk.follow (Disk.startOf w.directory directory).location directory.steps
    w.target (directory.join ⟨name⟩) = above ++ [name] ∧ ∀ tag, IsTag tag →
      w.target (temporary (directory.join ⟨name⟩) tag) = above ++ [name ++ ".tmp." ++ tag] := by
  obtain ⟨steps, down, absolute⟩ := steps_join (p := directory) noSlash mark (by decide)
  have located : w.target (directory.join ⟨name⟩) =
      Disk.follow (Disk.startOf w.directory directory).location directory.steps ++ [name] := by
    rw [Workspace.target, Disk.target, steps, Disk.follow_name _ _ down, Disk.startOf, absolute, Disk.startOf]
  refine ⟨located, fun tag isTag => ?_⟩
  obtain ⟨above, target, waiting⟩ := target_temporary w steps down isTag
  rw [waiting, (List.append_inj' (target.symm.trans located) rfl).1]

namespace SourceFile

/-- No file waits under a planned name. -/
theorem IsPlanned.ne_waiting {name tag : String} (isPlanned : IsPlanned name) (isTag : IsTag tag) (other : String) :
    other ++ ".tmp." ++ tag ≠ name := by
  rintro rfl
  obtain ⟨front, back, spelled, dots⟩ := isPlanned.dots
  have waits : ".tmp.".toList ++ tag.toList <:+ front ++ '_' :: back := by
    rw [← spelled]
    exact ⟨other.toList, by simp⟩
  have behind : '_' :: back <:+ front ++ '_' :: back := List.suffix_append _ _
  -- either the underscore is in the part that waiting adds, or all its dots are behind the underscore
  rcases List.suffix_or_suffix_of_suffix behind waits with inside | ⟨skipped, whole⟩
  · have member := inside.subset List.mem_cons_self
    rcases List.mem_append.mp member with early | late
    · exact absurd early (by decide)
    · exact notMem_of_isTag (by decide) (by decide) isTag late
  · have counted := congrArg (List.count '.') whole
    have two : ".tmp.".toList.count '.' = 2 := by decide
    have mark : ('_' :: back).count '.' = back.count '.' := List.count_cons_of_ne (by decide)
    rw [List.count_append, List.count_append] at counted
    omega

theorem apart_inDirectory (w : Workspace) (workingDirectory : Option Path) (outputDir : Path) {input : Path}
    (source : input.extension? ≠ some "cid") : (inDirectory workingDirectory outputDir input).Apart w := by
  have output := inDirectory_output workingDirectory outputDir input
  have document := inDirectory_document workingDirectory outputDir input
  have planned := (isEnding_ownEnding input).isPlanned workingDirectory
  have planned' := (isEnding_cid input).isPlanned workingDirectory
  obtain ⟨outputTarget, outputWaits⟩ := target_join w outputDir planned.noSlash planned.mark
  obtain ⟨documentTarget, documentWaits⟩ := target_join w outputDir planned'.noSlash planned'.mark
  have names : ∀ {above : DiskLocation} {a b : String}, a ≠ b → above ++ [a] ≠ above ++ [b] := by
    intro above a b other same
    exact other (List.cons.inj (List.append_inj' same rfl).2).1
  refine ⟨?_, fun tag isTag => ?_, fun tag isTag => ?_⟩
  · rw [output, document, outputTarget, documentTarget]
    exact names fun same => ownEnding_ne_cid source ((String.append_right_inj _).mp same)
  · rw [output, document, outputWaits tag isTag, documentTarget]
    exact names (planned'.ne_waiting isTag _)
  · rw [output, document, outputTarget, documentWaits tag isTag]
    exact names (planned.ne_waiting isTag _)

end SourceFile

end SourceCoverage
