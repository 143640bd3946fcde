import SourceCoverage.Proofs.Reuse.Together
import SourceCoverage.Proofs.Staging.Undisturbed

namespace SourceCoverage

open Staging Workspace

namespace Staging

variable {ε : Type} {w after : Workspace} {p : Path} {place : Place} {name : String}

theorem waiting_ne (name tag : String) : waiting name tag ≠ name := by
  intro same
  have lengths := congrArg String.length same
  have five : ".tmp.".length = 5 := rfl
  simp only [waiting, String.length_append] at lengths
  omega

/-- What waits under two tags has two names. -/
theorem waiting_ne_waiting {tag tag' : String} (isTag : IsTag tag) (isTag' : IsTag tag') (different : tag ≠ tag')
    (name name' : String) : waiting name tag ≠ waiting name' tag' := by
  intro same
  have letter {tag : String} (isTag : IsTag tag) : 'p' ∉ tag.toList.reverse ++ ['.'] := by
    rw [List.mem_append, List.mem_reverse, not_or]
    exact ⟨notMem_of_isTag (by decide) (by decide) isTag, by decide⟩
  have chars (name tag : String) : (waiting name tag).toList.reverse =
      (tag.toList.reverse ++ ['.']) ++ 'p' :: ('m' :: 't' :: '.' :: name.toList.reverse) := by
    simp [waiting]
  have spelled := (chars name tag).symm.trans ((congrArg (fun s : String => s.toList.reverse) same).trans
    (chars name' tag'))
  have tags := (append_inj_of_notMem (letter isTag) (letter isTag') spelled).1
  exact different (String.toList_inj.mp (List.reverse_inj.mp (List.append_cancel_right tags)))

theorem child_ne_waiting (place : Place) (name tag : String) : place.child name ≠ place.child (waiting name tag) :=
  fun same => waiting_ne name tag (Place.child_inj.mp same).symm

/-- What has been staged waits for its target. -/
theorem awaits_staged (houses : w.Houses p place name)
    (free : w.disk.get? (place.child (waiting name (tagOf w.tags))) = none)
    (ready : waitFault? w p place name (tagOf w.tags) = none) (contents : Octets) :
    Awaits (w.holding place name contents) p place name (tagOf w.tags) contents := by
  obtain ⟨clear, lives, _⟩ := Disk.fault?_eq_none_iff.mp ready
  have staged := houses.of_sameDirectories (.holding free contents)
  exact ⟨staged.names.temporary (isTag_tagOf w.tags), clear, lives, (get?_holding w contents _).trans (if_pos rfl)⟩

theorem child_waiting_ne {k l : Nat} (different : k ≠ l) (place : Place) (name name' : String) :
    place.child (waiting name (tagOf k)) ≠ place.child (waiting name' (tagOf l)) := by
  have tags : tagOf k ≠ tagOf l := fun same => different (tagOf_injective same)
  exact fun same => waiting_ne_waiting (isTag_tagOf k) (isTag_tagOf l) tags name name' (Place.child_inj.mp same)

/-- A file is staged but the one before it cannot be removed, or it is not even staged. -/
theorem run_stage_remove_refused (houses : w.Houses p place name)
    (free : w.disk.get? (place.child (waiting name (tagOf w.tags))) = none) (contents : Octets) (f : FileError → ε)
    {e : FileError}
    (fault : (waitFault? w p place name (tagOf w.tags)).or (w.disk.fault? place p name) = some e) :
    w.run (do
      let staged ← (stage p contents).mapError f
      orDiscard staged ((removeIfPresent p).mapError f)
      return staged : Attempt ε Staged).outcome = (.error (f e), w.tagged) := by
  cases wait : waitFault? w p place name (tagOf w.tags) with
  | some e' =>
    rw [wait] at fault
    cases fault
    exact run_attempt_bind_error (run_mapError (run_stage_refused houses free wait contents))
  | none =>
    rw [wait] at fault
    have names := (houses.of_sameDirectories (.holding free contents)).names
    have awaits := awaits_staged houses free wait contents
    have kept := (get?_holding w contents _).trans (if_neg (child_ne_waiting place name (tagOf w.tags)))
    have refused := run_removeIfPresent_refused names awaits.lives ((Disk.fault?_congr kept).trans fault)
    rw [run_attempt_bind (run_mapError (run_stage_ready houses wait contents)),
      run_attempt_bind_error (awaits.run_orDiscard p (run_mapError refused)),
      holding, without_having (w := w.tagged) (place.child_ne_nil _) free]

/-- A file is staged and the one before it removed. -/
theorem run_stage_remove_ready (houses : w.Houses p place name)
    (free : w.disk.get? (place.child (waiting name (tagOf w.tags))) = none) (contents : Octets) (f : FileError → ε)
    (wait : waitFault? w p place name (tagOf w.tags) = none) (ready : w.disk.fault? place p name = none) :
    w.run (do
      let staged ← (stage p contents).mapError f
      orDiscard staged ((removeIfPresent p).mapError f)
      return staged : Attempt ε Staged).outcome = (.ok ⟨temporary p (tagOf w.tags), p⟩,
        (w.holding place name contents).without (place.child name)) := by
  have names := (houses.of_sameDirectories (.holding free contents)).names
  have kept := (get?_holding w contents _).trans (if_neg (child_ne_waiting place name (tagOf w.tags)))
  have removed := run_removeIfPresent_ready names ((Disk.fault?_congr kept).trans ready)
  rw [run_attempt_bind (run_mapError (run_stage_ready houses wait contents)),
    run_attempt_bind (run_orDiscard_ok (run_mapError removed))]
  rfl

end Staging

variable {w after : Workspace} {file : SourceFile} {place : Place} {output document : String}

/-- Text and document wait side by side, and nothing stands where the document belongs. -/
structure Paired (w : Workspace) (file : SourceFile) (place : Place) (output document tag tag' : String)
    (text description : Octets) : Prop where
  first : Awaits w file.output place output tag text
  second : Awaits w file.document place document tag' description
  names : w.disk.Names w.directory file.output place output
  names' : w.disk.Names w.directory file.document place document
  apart : place.child (waiting document tag') ≠ place.child (waiting output tag)
  beside : place.child (waiting document tag') ≠ place.child output
  absent : w.disk.get? (place.child document) = none
  different : place.child document ≠ place.child output
  clear : Disk.refusal? place file.document document = none

namespace Paired

variable {tag tag' : String} {text description : Octets}
  (paired : Paired w file place output document tag tag' text description)

include paired

theorem run_refused {e : FileError} (fault : w.disk.fault? place file.output output = some e) :
    w.run (do
      orDiscard ⟨temporary file.document tag', file.document⟩ do
        let _ ← (commit ⟨temporary file.output tag, file.output⟩).mapError (.unwritable file.output)
      match ← (commit ⟨temporary file.document tag', file.document⟩).tried with
      | .ok _ => return
      | .error e =>
        let _ ← (removeIfPresent file.output).outcome
        throw (.unwritable file.document e) : Attempt Failure Unit).outcome =
      (.error (.unwritable file.output e),
        (w.without (place.child (waiting output tag))).without (place.child (waiting document tag'))) := by
  have unlinked : w.disk.get? (place.child (waiting output tag)) ≠ some .directory := by simp [paired.first.entry]
  have waits := paired.second.of_sameDirectories (.without unlinked)
    ((get?_without w _).trans (if_neg paired.apart))
  have refused := run_mapError (f := Failure.unwritable file.output)
    (paired.first.run_commit_refused paired.names fault)
  exact run_attempt_bind_error (waits.run_orDiscard file.document (run_attempt_bind_error refused))

theorem run_ready (ready : w.disk.fault? place file.output output = none) :
    w.run (do
      orDiscard ⟨temporary file.document tag', file.document⟩ do
        let _ ← (commit ⟨temporary file.output tag, file.output⟩).mapError (.unwritable file.output)
      match ← (commit ⟨temporary file.document tag', file.document⟩).tried with
      | .ok _ => return
      | .error e =>
        let _ ← (removeIfPresent file.output).outcome
        throw (.unwritable file.document e) : Attempt Failure Unit).outcome =
      (.ok (), (((w.without (place.child (waiting output tag))).having (place.child output) text).without
        (place.child (waiting document tag'))).having (place.child document) description) := by
  have unlinked : w.disk.get? (place.child (waiting output tag)) ≠ some .directory := by simp [paired.first.entry]
  have vacant : (w.without (place.child (waiting output tag))).disk.get? (place.child output) ≠ some .directory := by
    rw [get?_without, if_neg (child_ne_waiting place output tag)]
    exact (Disk.fault?_eq_none_iff.mp ready).2.2
  have same := (SameDirectories.without unlinked).trans (.having vacant text)
  have waits := paired.second.of_sameDirectories same (by
    rw [get?_having, if_neg paired.beside, get?_without, if_neg paired.apart])
  have free : (((w.without (place.child (waiting output tag))).having (place.child output) text).disk.fault? place
      file.document document) = none := by
    refine Disk.fault?_eq_none_iff.mpr ⟨paired.clear, paired.first.lives, ?_⟩
    rw [get?_having, if_neg paired.different, get?_without]
    split_ifs <;> simp [paired.absent]
  have first := run_mapError (f := Failure.unwritable file.output) (paired.first.run_commit_ready paired.names ready)
  have second := waits.run_commit_ready (paired.names'.of_sameDirectories same.disk) free
  rw [run_attempt_bind (run_orDiscard_ok ((run_attempt_bind first).trans rfl)), run_attempt_bind (run_tried second)]
  rfl

end Paired

/-- A file can be passed over: the directory of its output and its document is there, and under the next two tags
nothing is in the way. -/
structure Seated (w : Workspace) (file : SourceFile) (place : Place) (output document : String) : Prop where
  houses : w.Houses file.output place output
  houses' : w.Houses file.document place document
  different : document ≠ output
  free : w.disk.get? (place.child (waiting output (tagOf w.tags))) = none
  free' : w.disk.get? (place.child (waiting document (tagOf (w.tags + 1)))) = none
  apart : waiting output (tagOf w.tags) ≠ document
  apart' : waiting document (tagOf (w.tags + 1)) ≠ output

/-- What a pass finds in the places of text and document, and what speaks against putting files there. -/
structure Sight where
  output : Option DiskEntry
  document : Option DiskEntry
  outputFault : Option FileError
  documentFault : Option FileError
  outputWaitFault : Option FileError
  documentWaitFault : Option FileError

def Workspace.sight (w : Workspace) (file : SourceFile) (place : Place) (output document : String) : Sight where
  output := w.disk.get? (place.child output)
  document := w.disk.get? (place.child document)
  outputFault := w.disk.fault? place file.output output
  documentFault := w.disk.fault? place file.document document
  outputWaitFault := waitFault? w file.output place output (tagOf w.tags)
  documentWaitFault := waitFault? w file.document place document (tagOf (w.tags + 1))

/-- How an attempt ends, and what stands in the places of text and document then. -/
structure Effect (α : Type) where
  result : Except Failure α
  output : Option DiskEntry
  document : Option DiskEntry

/-- Nothing has changed. -/
def Sight.still {α : Type} (sight : Sight) (result : Except Failure α) : Effect α :=
  ⟨result, sight.output, sight.document⟩

/-- The old document goes before the new text comes. Up to then, a failure changes nothing. -/
def Sight.effect (sight : Sight) (file : SourceFile) (text description : Octets) : Effect Unit :=
  match sight.outputWaitFault, sight.documentWaitFault.or sight.documentFault, sight.outputFault with
  | some e, _, _ => sight.still (.error (.unwritable file.output e))
  | none, some e, _ => sight.still (.error (.unwritable file.document e))
  | none, none, some e => ⟨.error (.unwritable file.output e), sight.output, none⟩
  | none, none, none => ⟨.ok (), some (.file text), some (.file description)⟩

namespace Sight

variable {sight : Sight} {e : FileError} (file : SourceFile) (text description : Octets)

theorem effect_of_outputWaitFault (wait : sight.outputWaitFault = some e) : sight.effect file text description =
    sight.still (.error (.unwritable file.output e)) := by
  rw [effect, wait]

theorem effect_of_documentFault (wait : sight.outputWaitFault = none)
    (fault : sight.documentWaitFault.or sight.documentFault = some e) : sight.effect file text description =
      sight.still (.error (.unwritable file.document e)) := by
  rw [effect, wait, fault]

theorem effect_of_outputFault (wait : sight.outputWaitFault = none)
    (ready : sight.documentWaitFault.or sight.documentFault = none) (fault : sight.outputFault = some e) :
    sight.effect file text description = ⟨.error (.unwritable file.output e), sight.output, none⟩ := by
  rw [effect, wait, ready, fault]

theorem effect_of_faultless (wait : sight.outputWaitFault = none)
    (ready : sight.documentWaitFault.or sight.documentFault = none) (free : sight.outputFault = none) :
    sight.effect file text description = ⟨.ok (), some (.file text), some (.file description)⟩ := by
  rw [effect, wait, ready, free]

end Sight

/-- All that has changed is what stands under two names, and no more than two tags have been given. -/
structure Settles (w : Workspace) (place : Place) (output document : String) (entry entry' : Option DiskEntry)
    (after : Workspace) : Prop where
  same : w.SameDirectories after
  tags : w.tags ≤ after.tags
  tags' : after.tags ≤ w.tags + 2
  entries : ∀ location, after.disk.get? location =
    if location = place.child output then entry else if location = place.child document then entry'
    else w.disk.get? location

/-- No directory comes or goes if none does under the two names. -/
theorem settles_of_entries {entry entry' : Option DiskEntry} (directory : after.directory = w.directory)
    (tags : w.tags ≤ after.tags) (tags' : after.tags ≤ w.tags + 2)
    (kept : entry = some .directory ↔ w.disk.get? (place.child output) = some .directory)
    (kept' : entry' = some .directory ↔ w.disk.get? (place.child document) = some .directory)
    (entries : ∀ location, after.disk.get? location =
      if location = place.child output then entry else if location = place.child document then entry'
      else w.disk.get? location) : Settles w place output document entry entry' after := by
  refine ⟨⟨directory, fun location => ?_⟩, tags, tags', entries⟩
  rw [entries]
  split_ifs with first second
  · rw [first, kept]
  · rw [second, kept']
  · rfl

theorem settles_of_disk_eq (same : after.disk = w.disk) (directory : after.directory = w.directory)
    (tags : w.tags ≤ after.tags) (tags' : after.tags ≤ w.tags + 2) :
    Settles w place output document (w.disk.get? (place.child output)) (w.disk.get? (place.child document))
      after := by
  refine settles_of_entries directory tags tags' Iff.rfl Iff.rfl fun location => ?_
  rw [same]
  split_ifs with first second
  · rw [first]
  · rw [second]
  · rfl

/-- With text and document where they wait, and without the old document. -/
def Workspace.pairing (w : Workspace) (place : Place) (output document : String) (text description : Octets) :
    Workspace :=
  ((w.holding place output text).holding place document description).without (place.child document)

theorem Workspace.get?_pairing (w : Workspace) (place : Place) (output document : String) (text description : Octets)
    (location : DiskLocation) : (w.pairing place output document text description).disk.get? location =
      if location = place.child document then none
      else if location = place.child (waiting document (tagOf (w.tags + 1))) then some (.file description)
      else if location = place.child (waiting output (tagOf w.tags)) then some (.file text)
      else w.disk.get? location := by
  rw [pairing, get?_without, get?_holding, get?_holding, tags_holding]

namespace Seated

variable (seated : Seated w file place output document)

include seated

theorem document_ne_output : place.child document ≠ place.child output :=
  fun same => seated.different (Place.child_inj.mp same)

theorem document_ne_waiting : place.child document ≠ place.child (waiting output (tagOf w.tags)) :=
  fun same => seated.apart (Place.child_inj.mp same).symm

theorem waiting_ne_output : place.child (waiting document (tagOf (w.tags + 1))) ≠ place.child output :=
  fun same => seated.apart' (Place.child_inj.mp same)

/-- Four locations, with nothing where files are to wait. -/
theorem locations : [place.child output, place.child document, place.child (waiting output (tagOf w.tags)),
      place.child (waiting document (tagOf (w.tags + 1)))].Nodup ∧
    w.disk.get? (place.child (waiting output (tagOf w.tags))) = none ∧
    w.disk.get? (place.child (waiting document (tagOf (w.tags + 1)))) = none := by
  refine ⟨?_, seated.free, seated.free'⟩
  simp only [List.nodup_cons, List.mem_cons, List.not_mem_nil, or_false, not_or, List.nodup_nil, and_true,
    not_false_iff]
  exact ⟨⟨seated.document_ne_output.symm, child_ne_waiting _ _ _, seated.waiting_ne_output.symm⟩,
    ⟨seated.document_ne_waiting, child_ne_waiting _ _ _⟩, child_waiting_ne (by omega) _ _ _⟩

/-- While the text waits, all is as before for the document. -/
theorem second (text : Octets) : (w.holding place output text).Houses file.document place document ∧
    (w.holding place output text).disk.get? (place.child (waiting document (tagOf (w.tags + 1)))) = none ∧
    waitFault? (w.holding place output text) file.document place document (tagOf (w.tags + 1)) =
      waitFault? w file.document place document (tagOf (w.tags + 1)) ∧
    (w.holding place output text).disk.fault? place file.document document =
      w.disk.fault? place file.document document := by
  have apart := child_waiting_ne (show w.tags + 1 ≠ w.tags by omega) place document output
  have waiting := (get?_holding w text _).trans (if_neg apart)
  have belonging := (get?_holding w text _).trans (if_neg seated.document_ne_waiting)
  exact ⟨seated.houses'.of_sameDirectories (.holding seated.free text), waiting.trans seated.free',
    Disk.fault?_congr waiting, Disk.fault?_congr belonging⟩

/-- Where both can wait and the old document can go, text and document come to wait side by side. -/
theorem paired (text description : Octets) (wait : waitFault? w file.output place output (tagOf w.tags) = none)
    (wait' : waitFault? w file.document place document (tagOf (w.tags + 1)) = none)
    (ready : w.disk.fault? place file.document document = none) :
    Paired (w.pairing place output document text description) file place output document (tagOf w.tags)
      (tagOf (w.tags + 1)) text description := by
  obtain ⟨houses', free', sameWait, sameFault⟩ := seated.second text
  have apart := child_waiting_ne (show w.tags + 1 ≠ w.tags by omega) place document output
  have beside := child_ne_waiting place document (tagOf (w.tags + 1))
  have same : w.SameDirectories (w.holding place output text) := .holding seated.free text
  have same' : (w.holding place output text).SameDirectories
      ((w.holding place output text).holding place document description) := .holding free' description
  -- the document that goes is a file or nothing
  have vacant : ((w.holding place output text).holding place document description).disk.get? (place.child document) ≠
      some .directory := by
    rw [get?_holding, tags_holding, if_neg beside]
    exact (Disk.fault?_eq_none_iff.mp (sameFault.trans ready)).2.2
  have gone := SameDirectories.without vacant
  have all := same.trans (same'.trans gone)
  refine ⟨?_, ?_, (seated.houses.of_sameDirectories all).names, (seated.houses'.of_sameDirectories all).names, apart,
    seated.waiting_ne_output, ?_, seated.document_ne_output, (Disk.fault?_eq_none_iff.mp ready).1⟩
  · refine (awaits_staged seated.houses seated.free wait text).of_sameDirectories (same'.trans gone) ?_
    rw [pairing, get?_without, if_neg seated.document_ne_waiting.symm, get?_holding, tags_holding,
      if_neg apart.symm]
  · refine (awaits_staged houses' free' (sameWait.trans wait') description).of_sameDirectories gone ?_
    rw [tags_holding, pairing, get?_without, if_neg beside.symm]
  · rw [get?_pairing, if_pos rfl]

theorem outputFault_pairing (text description : Octets) :
    (w.pairing place output document text description).disk.fault? place file.output output =
      w.disk.fault? place file.output output := by
  refine Disk.fault?_congr ?_
  rw [get?_pairing, if_neg seated.document_ne_output.symm, if_neg seated.waiting_ne_output.symm,
    if_neg (child_ne_waiting place output _)]

theorem run_writePair_of_outputWaitFault {e : FileError}
    (fault : waitFault? w file.output place output (tagOf w.tags) = some e) (text description : Octets) :
    w.run (writePair file text description).outcome = (.error (.unwritable file.output e), w.tagged) :=
  run_attempt_bind_error (run_mapError (run_stage_refused seated.houses seated.free fault text))

theorem run_writePair_of_documentFault {e : FileError}
    (wait : waitFault? w file.output place output (tagOf w.tags) = none)
    (fault : (waitFault? w file.document place document (tagOf (w.tags + 1))).or
      (w.disk.fault? place file.document document) = some e) (text description : Octets) :
    w.run (writePair file text description).outcome = (.error (.unwritable file.document e), w.tagged.tagged) := by
  obtain ⟨houses', free', sameWait, sameFault⟩ := seated.second text
  rw [← sameWait, ← sameFault] at fault
  have awaits := awaits_staged seated.houses seated.free wait text
  have refused := run_stage_remove_refused houses' free' description (Failure.unwritable file.document) fault
  have discarded := (awaits.of_sameDirectories (.tagged _) rfl).run_orDiscard file.output refused
  have traceless : (w.holding place output text).tagged.without (place.child (waiting output (tagOf w.tags))) =
      w.tagged.tagged := without_having (w := w.tagged.tagged) (place.child_ne_nil _) seated.free text
  rw [traceless] at discarded
  rw [writePair, run_attempt_bind (run_mapError (run_stage_ready seated.houses wait text)),
    run_attempt_bind_error discarded]

variable (wait : waitFault? w file.output place output (tagOf w.tags) = none)
  (wait' : waitFault? w file.document place document (tagOf (w.tags + 1)) = none)
  (ready : w.disk.fault? place file.document document = none)

include wait wait' ready

theorem run_writePair_of_ready {text description : Octets} {result : Except Failure Unit}
    (ends : (w.pairing place output document text description).run (do
      orDiscard ⟨temporary file.document (tagOf (w.tags + 1)), file.document⟩ do
        let _ ← (commit ⟨temporary file.output (tagOf w.tags), file.output⟩).mapError (.unwritable file.output)
      match ← (commit ⟨temporary file.document (tagOf (w.tags + 1)), file.document⟩).tried with
      | .ok _ => return
      | .error e =>
        let _ ← (removeIfPresent file.output).outcome
        throw (.unwritable file.document e) : Attempt Failure Unit).outcome = (result, after)) :
    w.run (writePair file text description).outcome = (result, after) := by
  obtain ⟨houses', free', sameWait, sameFault⟩ := seated.second text
  have cleared := run_stage_remove_ready houses' free' description (Failure.unwritable file.document)
    (sameWait.trans wait') (sameFault.trans ready)
  rw [writePair, run_attempt_bind (run_mapError (run_stage_ready seated.houses wait text)),
    run_attempt_bind (run_orDiscard_ok cleared)]
  exact ends

theorem run_writePair_of_outputFault {e : FileError} (fault : w.disk.fault? place file.output output = some e)
    (text description : Octets) : ∃ after,
      w.run (writePair file text description).outcome = (.error (.unwritable file.output e), after) ∧
      Settles w place output document (w.disk.get? (place.child output)) none after := by
  have paired := seated.paired text description wait wait' ready
  refine ⟨_, seated.run_writePair_of_ready wait wait' ready
    (paired.run_refused ((seated.outputFault_pairing text description).trans fault)), ?_⟩
  refine settles_of_entries rfl (Nat.le_add_right w.tags 2) (Nat.le_refl _) Iff.rfl ?_ fun location => ?_
  · simp [(Disk.fault?_eq_none_iff.mp ready).2.2]
  · obtain ⟨apart, free, free'⟩ := seated.locations
    rw [get?_without, get?_without, get?_pairing]
    grind

theorem run_writePair_of_faultless (free : w.disk.fault? place file.output output = none)
    (text description : Octets) : ∃ after, w.run (writePair file text description).outcome = (.ok (), after) ∧
      Settles w place output document (some (.file text)) (some (.file description)) after := by
  have paired := seated.paired text description wait wait' ready
  refine ⟨_, seated.run_writePair_of_ready wait wait' ready
    (paired.run_ready ((seated.outputFault_pairing text description).trans free)), ?_⟩
  refine settles_of_entries rfl (Nat.le_add_right w.tags 2) (Nat.le_refl _) ?_ ?_ fun location => ?_
  · simp [(Disk.fault?_eq_none_iff.mp free).2.2]
  · simp [(Disk.fault?_eq_none_iff.mp ready).2.2]
  · obtain ⟨apart, free, free'⟩ := seated.locations
    rw [get?_having, get?_without, get?_having, get?_without, get?_pairing]
    grind

omit wait wait' ready

/-- Writing text and document ends as what is in their places foretells. -/
theorem run_writePair (text description : Octets) :
    ∃ after, w.run (writePair file text description).outcome =
        (((w.sight file place output document).effect file text description).result, after) ∧
      Settles w place output document ((w.sight file place output document).effect file text description).output
        ((w.sight file place output document).effect file text description).document after := by
  generalize sighted : w.sight file place output document = sight
  cases wait : sight.outputWaitFault with
  | some e =>
    rw [Sight.effect_of_outputWaitFault file text description wait]
    subst sighted
    exact ⟨w.tagged, seated.run_writePair_of_outputWaitFault wait text description,
      settles_of_disk_eq rfl rfl (Nat.le_add_right w.tags 1) (Nat.le_succ _)⟩
  | none =>
  cases fault : sight.documentWaitFault.or sight.documentFault with
  | some e =>
    rw [Sight.effect_of_documentFault file text description wait fault]
    subst sighted
    exact ⟨w.tagged.tagged, seated.run_writePair_of_documentFault wait fault text description,
      settles_of_disk_eq rfl rfl (Nat.le_add_right w.tags 2) (Nat.le_refl _)⟩
  | none =>
  obtain ⟨wait', ready⟩ := Option.or_eq_none_iff.mp fault
  cases free : sight.outputFault with
  | some e =>
    rw [Sight.effect_of_outputFault file text description wait fault free]
    subst sighted
    exact seated.run_writePair_of_outputFault wait wait' ready free text description
  | none =>
    rw [Sight.effect_of_faultless file text description wait fault free]
    subst sighted
    exact seated.run_writePair_of_faultless wait wait' ready free text description

end Seated

/-- An action that changes nothing in either workspace and gives the same answer in both. -/
def Unaffected (u v : Workspace) (action : Action) : Prop :=
  perform action u = ((perform action u).1, u) ∧ perform action v = ((perform action u).1, v)

/-- A script of such actions gives the same value in both. -/
theorem run_unaffected {α : Type} {u v : Workspace} {script : Script α} (only : script.Only (Unaffected u v)) :
    u.run script = ((u.run script).1, u) ∧ v.run script = ((u.run script).1, v) := by
  induction script with
  | done value => exact ⟨rfl, rfl⟩
  | act action next ih =>
    obtain ⟨⟨first, second⟩, further⟩ := only
    have steps (w : Workspace) {answer : action.Answer} (performed : perform action w = (answer, w)) :
        w.run (.act action next) = w.run (next answer) := by
      change (next (perform action w).1).run perform (perform action w).2 = _
      rw [performed]
      rfl
    rw [steps u first, steps v second]
    exact ih _ (further _)

/-- How a pass ends, by what it reads, what it finds to be missing and what is in the places of text and document. -/
def passEffect (codec : Codec) (grammar : Grammar) (settings : Settings) (file : SourceFile)
    (source : Except Failure Octets) (miss? : Octets → Option ReuseMiss) (sight : Sight) : Effect Outcome :=
  match source with
  | .error e => sight.still (.error e)
  | .ok source =>
    match miss? source with
    | none => sight.still (.ok .reused)
    | some reason =>
      match Instrumentation.ofSource grammar settings file.input source with
      | .error e => sight.still (.error e)
      | .ok made =>
        let written := sight.effect file made.output (made.document.file codec settings.compressDocument)
        ⟨written.result.map fun _ => .instrumented made.document.markers.length made.decisions reason,
          written.output, written.document⟩

theorem Seated.run_passFile (seated : Seated w file place output document) (codec : Codec) (grammar : Grammar)
    {settings : Settings} {source : Except Failure Octets} {miss? : Octets → Option ReuseMiss}
    (read : w.run (readSource file.input).outcome = (source, w))
    (asked : ∀ source, w.run (reuseMiss? codec settings.force file (Sha256.digest source)
      (settings.fingerprint file.input)) = (miss? source, w)) :
    ∃ after, w.run (passFile codec grammar settings file).outcome =
        ((passEffect codec grammar settings file source miss? (w.sight file place output document)).result, after) ∧
      Settles w place output document
        (passEffect codec grammar settings file source miss? (w.sight file place output document)).output
        (passEffect codec grammar settings file source miss? (w.sight file place output document)).document
          after := by
  have still : Settles w place output document (w.sight file place output document).output
      (w.sight file place output document).document w :=
    settles_of_disk_eq rfl rfl (Nat.le_refl _) (Nat.le_add_right _ _)
  unfold passFile passEffect
  cases source with
  | error e => exact ⟨w, run_attempt_bind_error read, still⟩
  | ok source =>
    have lifted := run_lift (ε := Failure)
      (reuseMiss? codec settings.force file (Sha256.digest source) (settings.fingerprint file.input)) w
    rw [asked] at lifted
    rw [run_attempt_bind read, run_attempt_bind lifted]
    dsimp only
    cases miss? source with
    | none => exact ⟨w, rfl, still⟩
    | some reason =>
      dsimp only
      cases instrumented : Instrumentation.ofSource grammar settings file.input source with
      | error e => exact ⟨w, rfl, still⟩
      | ok made =>
        obtain ⟨after, written, settles⟩ := seated.run_writePair made.output
          (made.document.file codec settings.compressDocument)
        have given : w.run (Attempt.ofExcept (.ok made) : Attempt Failure Instrumentation).outcome = (.ok made, w) :=
          rfl
        rw [run_attempt_bind given]
        dsimp only
        generalize (w.sight file place output document).effect file made.output
          (made.document.file codec settings.compressDocument) = effect at written settles ⊢
        obtain ⟨result, entry, entry'⟩ := effect
        refine ⟨after, ?_, settles⟩
        cases result with
        | error e => exact run_attempt_bind_error written
        | ok _ => exact (run_attempt_bind written).trans rfl

/-- Two workspaces look the same to a pass over a file. -/
structure Alike (u v : Workspace) (file : SourceFile) (place : Place) (output document : String) : Prop where
  input : v.disk.read v.directory file.input = u.disk.read u.directory file.input
  sight : v.sight file place output document = u.sight file place output document

section Alike

variable {u v : Workspace} {p : Path}

theorem unaffected_read (same : v.disk.read v.directory p = u.disk.read u.directory p) : Unaffected u v (.read p) :=
  ⟨rfl, congrArg (·, v) same⟩

theorem unaffected_isFile (same : v.stat p = u.stat p) : Unaffected u v (.isFile p) := by
  refine ⟨rfl, congrArg (·, v) (?_ : v.isFile p = u.isFile p)⟩
  rw [isFile, same, isFile]

theorem stat_eq_of_entry {name : String} (names : u.disk.Names u.directory p place name)
    (names' : v.disk.Names v.directory p place name)
    (same : v.disk.get? (place.child name) = u.disk.get? (place.child name)) : v.stat p = u.stat p := by
  rw [stat, stat, names.stat, names'.stat, Disk.held, Disk.held, same]

/-- A pass does the same in both. -/
theorem Alike.run_passFile (alike : Alike u v file place output document)
    (seated : Seated u file place output document) (seated' : Seated v file place output document) (codec : Codec)
    (grammar : Grammar) (settings : Settings) :
    ∃ effect : Effect Outcome,
      (∃ after, u.run (passFile codec grammar settings file).outcome = (effect.result, after) ∧
        Settles u place output document effect.output effect.document after) ∧
      ∃ after, v.run (passFile codec grammar settings file).outcome = (effect.result, after) ∧
        Settles v place output document effect.output effect.document after := by
  have output := stat_eq_of_entry seated.houses.names seated'.houses.names (congrArg Sight.output alike.sight)
  have document := stat_eq_of_entry seated.houses'.names seated'.houses'.names (congrArg Sight.document alike.sight)
  have read : v.disk.read v.directory file.document = u.disk.read u.directory file.document := by
    have document : v.disk.stat v.directory file.document = u.disk.stat u.directory file.document := document
    rw [Disk.read, document, Disk.read]
  obtain ⟨source, source'⟩ := run_unaffected (only_readSource (unaffected_read alike.input))
  have asked (given : Octets) := run_unaffected (only_reuseMiss? (unaffected_isFile output) (unaffected_read read)
    codec settings.force (Sha256.digest given) (settings.fingerprint file.input))
  have first := seated.run_passFile codec grammar source fun given => (asked given).1
  have second := seated'.run_passFile codec grammar source' fun given => (asked given).2
  rw [alike.sight] at second
  exact ⟨_, first, second⟩

end Alike

end SourceCoverage
