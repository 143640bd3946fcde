import SourceCoverage.Proofs.Reuse.Again
import SourceCoverage.Proofs.Reuse.Effect
import SourceCoverage.Proofs.Reuse.Planned

namespace SourceCoverage

open Staging Workspace

/-- Nothing stands under a planned name of a directory, and nothing waits for it under a tag. -/
structure Workspace.Vacant (w : Workspace) (outputDir : Path) (place : Place) (name tag : String) : Prop where
  planned : SourceFile.IsPlanned name
  whole : Char.ofNat 0 ∉ name.toList
  short : outputDir.text.utf8ByteSize + 1 + (waiting name tag).utf8ByteSize ≤ Disk.longestPath
  absent : w.disk.get? (place.child name) = none
  free : w.disk.get? (place.child (waiting name tag)) = none

variable {w : Workspace} {outputDir input : Path} {place : Place} {name tag output document : String}

namespace Workspace.Vacant

variable (vacant : w.Vacant outputDir place name tag) (accepted : Disk.objection? outputDir = none)

include vacant accepted

theorem waitFault?_eq (isTag : IsTag tag) (lives : place.lives = true) :
    waitFault? w (outputDir.join ⟨name⟩) place name tag =
      if (waiting name tag).utf8ByteSize > Disk.longestName then some .nameTooLong else none :=
  waitFault?_join accepted vacant.planned.noSlash vacant.planned.mark vacant.whole isTag vacant.short lives
    vacant.free

/-- Where a file can wait for a name, it can also have it. -/
theorem fault?_eq_none (lives : place.lives = true) (ready : (waiting name tag).utf8ByteSize ≤ Disk.longestName) :
    w.disk.fault? place (outputDir.join ⟨name⟩) name = none := by
  have longer : name.utf8ByteSize ≤ (waiting name tag).utf8ByteSize := by
    rw [waiting, String.utf8ByteSize_append, String.utf8ByteSize_append]
    omega
  have named : name ≠ "" := by
    rintro rfl
    simpa using vacant.planned.mark
  obtain ⟨_, clean, _⟩ := Disk.objection?_eq_none_iff.mp accepted
  have short := vacant.short
  rw [Disk.fault?_join vacant.planned.noSlash named clean vacant.whole (by omega) lives vacant.absent,
    if_neg (by omega)]

end Workspace.Vacant

/-- What is not there cannot be used again. -/
theorem run_reuseMiss?_of_absent {file : SourceFile} (names : w.disk.Names w.directory file.output place name)
    (absent : w.disk.get? (place.child name) = none) (codec : Codec) (sourceHash settingsHash : String) :
    w.run (reuseMiss? codec false file sourceHash settingsHash) = (some .outputMissing, w) := by
  have missing : w.run (Script.perform (.isFile file.output)) = (false, w) := by
    change (w.isFile file.output, w) = _
    rw [isFile, stat, names.stat, Disk.held_eq_none absent]
    cases Disk.refusal? place file.output name <;> rfl
  unfold reuseMiss?
  rw [if_neg (by decide), run_bind, missing]
  rfl

/-- Where nothing is in the way, a source is instrumented unless its text or its document would have to wait under a
name that is too long. -/
theorem run_passFile_vacant (accepted : Disk.objection? outputDir = none)
    (walked : outputDir.steps.foldlM w.disk.enter (Disk.startOf w.directory outputDir) = .ok place)
    (lives : place.lives = true) (vacant : w.Vacant outputDir place output (tagOf w.tags))
    (vacant' : w.Vacant outputDir place document (tagOf (w.tags + 1))) (different : document ≠ output)
    {grammar : Grammar} {settings : Settings} {source : Octets} {text : String} {made : Instrumentation}
    (stored : w.disk.read w.directory input = .ok source) (decoded : Utf8.decode source = .ok text)
    (unforced : settings.force = false)
    (instrumented : Instrumentation.ofSource grammar settings input source = .ok made) (codec : Codec) :
    (w.run (passFile codec grammar settings
        ⟨input, outputDir.join ⟨output⟩, outputDir.join ⟨document⟩⟩).outcome).1 =
      if (waiting output (tagOf w.tags)).utf8ByteSize > Disk.longestName then
        .error (.unwritable (outputDir.join ⟨output⟩) .nameTooLong)
      else if (waiting document (tagOf (w.tags + 1))).utf8ByteSize > Disk.longestName then
        .error (.unwritable (outputDir.join ⟨document⟩) .nameTooLong)
      else .ok (.instrumented made.document.markers.length made.decisions .outputMissing) := by
  have houses := houses_join accepted walked vacant.planned.noSlash vacant.planned.mark
  have seated : Seated w ⟨input, outputDir.join ⟨output⟩, outputDir.join ⟨document⟩⟩ place output document :=
    ⟨houses, houses_join accepted walked vacant'.planned.noSlash vacant'.planned.mark, different, vacant.free,
      vacant'.free, vacant'.planned.ne_waiting (isTag_tagOf _) output,
      vacant.planned.ne_waiting (isTag_tagOf _) document⟩
  have asked (bytes : Octets) : w.run (reuseMiss? codec settings.force
      ⟨input, outputDir.join ⟨output⟩, outputDir.join ⟨document⟩⟩ (Sha256.digest bytes)
      (settings.fingerprint input)) = ((fun _ => some .outputMissing) bytes, w) := by
    rw [unforced]
    exact run_reuseMiss?_of_absent houses.names vacant.absent codec _ _
  obtain ⟨after, ended, _⟩ := seated.run_passFile codec grammar (run_readSource stored decoded) asked
  rw [ended, passEffect, instrumented]
  have wait := vacant.waitFault?_eq accepted (isTag_tagOf _) lives
  have wait' := vacant'.waitFault?_eq accepted (isTag_tagOf _) lives
  dsimp only
  split_ifs with long long'
  · rw [if_pos long] at wait
    rw [Sight.effect_of_outputWaitFault _ _ _ wait]
    rfl
  · rw [if_neg long] at wait
    rw [if_pos long'] at wait'
    rw [Sight.effect_of_documentFault _ _ _ wait (by rw [sight, wait']; rfl)]
    rfl
  · rw [if_neg long] at wait
    rw [if_neg long'] at wait'
    have free := vacant.fault?_eq_none accepted lives (Nat.le_of_not_gt long)
    have free' := vacant'.fault?_eq_none accepted lives (Nat.le_of_not_gt long')
    rw [Sight.effect_of_faultless _ _ _ wait (by rw [sight, wait', free']; rfl) free]
    rfl

end SourceCoverage
