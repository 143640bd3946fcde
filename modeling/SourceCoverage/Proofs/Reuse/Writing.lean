import SourceCoverage.Proofs.Reuse.Pair
import SourceCoverage.Proofs.SourceFile
import SourceCoverage.Proofs.Staging.Waiting

namespace SourceCoverage

open Journal Staging Workspace

namespace SourceFile

/-- The directories that are made for what is written. -/
def parents (file : SourceFile) : List Path := Staging.parents file.output ++ Staging.parents file.document

end SourceFile

/-- The working directory is a directory as long as it lives. -/
def Workspace.Sound (w : Workspace) : Prop :=
  w.directory.lives = true → w.disk.get? w.directory.location = some .directory

/-- A document stands only beside a text, and both were written by the same call. -/
def Journal.Together (file : SourceFile) (j : Journal) : Prop :=
  ∀ bytes, j.workspace.fileAt (j.target file.document) = some bytes →
    (∃ text, j.workspace.fileAt (j.target file.output) = some text) ∧
      j.author (j.target file.output) = j.author (j.target file.document)

variable {call : Nat} {file : SourceFile} {j k l : Journal} {output document : Octets}

theorem together_of_absent (absent : k.workspace.fileAt (k.target file.document) = none) : k.Together file := by
  intro bytes present
  rw [absent] at present
  cases present

/-- As long as only waiting files change, text and document stay together. -/
theorem Staging.Beside.together {parents : List Path} (beside : Beside file.written parents j k)
    (together : j.Together file) : k.Together file := by
  obtain ⟨touched, apart, spares⟩ := beside
  have outside {p : Path} (known : p ∈ file.written) : j.target p ∉ touched := fun inside =>
    apart _ inside p known rfl
  have known {p : Path} {bytes : Octets} (present : j.workspace.fileAt (j.target p) = some bytes) :
      j.entryAt (j.target p) ≠ none := by
    simp [entryAt_eq_some_iff.mpr present]
  intro bytes present
  rw [spares.target, spares.file_path file.document_mem (outside file.document_mem)] at present
  obtain ⟨⟨text, standing⟩, author⟩ := together bytes present
  rw [spares.target, spares.target, spares.file_path file.output_mem (outside file.output_mem)]
  refine ⟨⟨text, standing⟩, ?_⟩
  rw [spares.authors _ (outside file.output_mem) (known standing),
    spares.authors _ (outside file.document_mem) (known present), author]

/-- Where contents wait for a path and the disk does not find it, there is no file. -/
theorem Staging.Waits.absent {paths : List Path} {p : Path} {tag : String} {contents : Octets}
    (waits : Waits call paths p tag contents j k) (sound : j.workspace.Sound) {e : FileError}
    (kind : e.kind = .notFound) (refused : k.workspace.disk.remove k.workspace.directory p = .error e) :
    k.workspace.fileAt (k.target p) = none := by
  obtain ⟨disk, written⟩ := waits.written
  rw [← waits.spares.directory] at written
  obtain ⟨waitsFor, absolute⟩ := waitsFor_temporary p waits.isTag
  cases waitsFor with
  | beside steps down _ =>
    obtain ⟨place, reaches⟩ := reaches_of_temporary waits.isTag steps down written
    exact Disk.file?_of_remove_notFound steps down reaches refused kind
  | inside nameless waiting =>
    obtain ⟨place, walked, lives⟩ := Disk.reaches_of_write waiting written
    have start : Disk.startOf k.workspace.directory (temporary p tag) = Disk.startOf k.workspace.directory p := by
      rw [Disk.startOf, absolute, Disk.startOf]
    rw [start] at walked
    by_cases empty : p.text = ""
    · -- the empty path leads nowhere, and the working directory is no file
      obtain rfl : p = ⟨""⟩ := congrArg Path.mk empty
      cases walked
      have standing := sound (waits.spares.directory ▸ lives)
      rw [← waits.spares.directory] at standing
      have here : k.target ⟨""⟩ = k.workspace.directory.location := rfl
      rw [here, fileAt, Disk.file?, waits.spares.keeps _ standing]
    · exact absurd kind (Disk.remove_nameless nameless empty walked refused)

/-- The document is staged and the one before it has gone. -/
structure Cleared (call : Nat) (file : SourceFile) (tag : String) (document : Octets) (j k : Journal) : Prop where
  free : j.entryAt (j.target (temporary file.document tag)) = none
  apart : ∀ p ∈ file.written, j.target (temporary file.document tag) ≠ j.target p
  spares : Spares file.written (Staging.parents file.document)
    [j.target (temporary file.document tag), j.target file.document] j k
  entry : k.entryAt (j.target (temporary file.document tag)) = some (.file document)
  author : k.author (j.target (temporary file.document tag)) = call
  absent : k.workspace.fileAt (j.target file.document) = none

/-- Where there is no document any more, what waits is all there is. -/
theorem Staging.Waits.cleared {tag : String} (waits : Waits call file.written file.document tag document j k)
    (spares : Spares file.written [] [k.target file.document] k l)
    (absent : l.workspace.fileAt (k.target file.document) = none) : Cleared call file tag document j l := by
  rw [waits.spares.target] at spares absent
  have apart : j.target (temporary file.document tag) ∉ [j.target file.document] := by
    simpa using waits.apart _ file.document_mem
  have all : Spares file.written (Staging.parents file.document)
      [j.target (temporary file.document tag), j.target file.document] j l :=
    (waits.spares.widen (by simp)).trans (spares.weaken (List.nil_subset _) (by simp))
  refine ⟨waits.free, waits.apart, all, spares.entry_eq apart waits.entry, ?_, absent⟩
  rw [spares.authors _ apart (by simp [waits.entry]), waits.author]

theorem leads_clear (sound : j.workspace.Sound) (document : Octets) :
    Leads call file.written (fun k => j.Together file → k.Together file) (do
      let description ← (stage file.document document).mapError (.unwritable file.document)
      orDiscard description ((removeIfPresent file.document).mapError (.unwritable file.document))
      return description : Attempt Failure Staged).outcome (fun result k => match result with
        | .ok staged => ∃ tag, staged = ⟨temporary file.document tag, file.document⟩ ∧
          Cleared call file tag document j k
        | .error e => (∃ e', e = .unwritable file.document e') ∧
            Spares file.written (Staging.parents file.document) [] j k) j := by
  refine leads_attempt_bind (leads_mapError (leads_mono (leads_stage file.document_mem document)
    (fun k beside => beside.together) ?_))
  intro result k staged
  cases result with
  | error e => exact ⟨⟨e, rfl⟩, staged⟩
  | ok description =>
    obtain ⟨tag, rfl, waits⟩ := staged
    have waiting {l : Journal} (spares : Spares file.written [] [] k l) :
        Spares file.written (Staging.parents file.document) [j.target (temporary file.document tag)] j l :=
      waits.spares.trans (spares.weaken (List.nil_subset _) (List.nil_subset _))
    have beside {l : Journal}
        (spares : Spares file.written (Staging.parents file.document) [j.target (temporary file.document tag)] j l) :
        j.Together file → l.Together file :=
      Beside.together ⟨_, by simpa using waits.apart, spares⟩
    refine leads_attempt_bind
      (leads_orDiscard (leads_mapError (leads_mono (leads_removeIfPresent file.document) ?_ ?_)))
    · rintro l (same | ⟨gone, spares⟩)
      · exact beside (waiting same)
      · refine fun _ => together_of_absent ?_
        rw [spares.target]
        exact fileAt_eq_none gone
    · intro result l ended
      cases result with
      | error e =>
        intro m removing gone
        rw [(waiting ended).target] at removing gone
        have spares := (waiting ended).trans (removing.weaken (List.nil_subset _) (List.Subset.refl _))
        exact ⟨beside spares, ⟨e, rfl⟩, spares.settle waits.free waits.apart gone⟩
      | ok _ =>
        refine leads_pure ⟨tag, rfl, ?_⟩
        rcases ended with ⟨gone, spares⟩ | ⟨same, e, missing, refused⟩
        · exact waits.cleared spares (fileAt_eq_none gone)
        · -- the disk has not found the document, which has to mean that there is none
          refine waits.cleared (same.widen (List.nil_subset _)) ?_
          rw [same.file_path file.document_mem (by simp)]
          exact waits.absent sound missing refused

/-- Text and document of a call wait at two places of their own, and there is no document yet. -/
structure Ready (call : Nat) (file : SourceFile) (text description : Path) (output document : Octets) (k : Journal) :
    Prop where
  textEntry : k.entryAt (k.target text) = some (.file output)
  textAuthor : k.author (k.target text) = call
  textApart : ∀ p ∈ file.written, k.target text ≠ k.target p
  descriptionEntry : k.entryAt (k.target description) = some (.file document)
  descriptionAuthor : k.author (k.target description) = call
  descriptionApart : ∀ p ∈ file.written, k.target description ≠ k.target p
  separate : k.target text ≠ k.target description
  absent : k.workspace.fileAt (k.target file.document) = none

namespace Ready

variable {text description : Path}

/-- There is no document until one is moved there. -/
theorem absent_of_spares (ready : Ready call file text description output document k) {touched : List DiskLocation}
    (spares : Spares file.written [] touched k l) (outside : k.target file.document ∉ touched) :
    l.workspace.fileAt (k.target file.document) = none := by
  rw [spares.file_path file.document_mem outside, ready.absent]

theorem together_of_spares (ready : Ready call file text description output document k) {touched : List DiskLocation}
    (spares : Spares file.written [] touched k l) (outside : k.target file.document ∉ touched) : l.Together file := by
  refine together_of_absent ?_
  rw [spares.target]
  exact ready.absent_of_spares spares outside

end Ready

/-- Both files are in place, as the call has written them. -/
structure Placed (call : Nat) (file : SourceFile) (output document : Octets) (k : Journal) : Prop where
  output : k.workspace.disk.read k.workspace.directory file.output = .ok output
  outputAuthor : k.author (k.target file.output) = call
  document : k.workspace.disk.read k.workspace.directory file.document = .ok document
  documentAuthor : k.author (k.target file.document) = call

theorem Placed.together (placed : Placed call file output document k) : k.Together file := by
  intro bytes _
  exact ⟨⟨output, Disk.file?_of_read placed.output⟩, placed.outputAuthor.trans placed.documentAuthor.symm⟩

/-- What waited alone is moved with its contents. -/
theorem Staging.Moved.read {paths : List Path} {staged : Staged} {contents : Octets} (moved : Moved paths staged j k)
    (waiting : j.entryAt (j.target staged.temporary) = some (.file contents)) :
    k.workspace.disk.read k.workspace.directory staged.target = .ok contents := by
  obtain ⟨contents', waiting', read⟩ := moved.contents
  rw [waiting] at waiting'
  cases waiting'
  exact read

/-- Once the text is in place, the document follows. -/
theorem Ready.placed {text description : Path} (ready : Ready call file text description output document j)
    (different : j.target file.output ≠ j.target file.document)
    (first : Moved file.written ⟨text, file.output⟩ j k)
    (second : Moved file.written ⟨description, file.document⟩ k l) :
    Placed call file output document l := by
  have outputApart := ready.descriptionApart _ file.output_mem
  have read := first.read ready.textEntry
  have elsewhere : k.target file.output ∉ [k.target description, k.target file.document] := by
    simp [first.spares.target, outputApart.symm, different]
  have waiting : j.target description ∉ [j.target text, j.target file.output] := by
    simp [ready.separate.symm, outputApart]
  have standing : k.entryAt (k.target file.output) = some (.file output) :=
    entryAt_eq_some_iff.mpr (Disk.file?_of_read read)
  have outputAuthor := second.spares.authors _ elsewhere (by simp [standing])
  have descriptionAuthor := first.spares.authors _ waiting (by simp [ready.descriptionEntry])
  refine ⟨?_, ?_, second.read ?_, ?_⟩
  · rw [second.spares.directory]
    exact Disk.read_mono second.spares.keeps read (second.spares.entry_path file.output_mem elsewhere)
  · rw [second.spares.target, outputAuthor, first.spares.target, first.author, ready.textAuthor]
  · rw [first.spares.target]
    exact first.spares.entry_eq waiting ready.descriptionEntry
  · rw [second.spares.target, second.author, first.spares.target, descriptionAuthor, ready.descriptionAuthor]

/-- Nothing waits any more. -/
structure Cleaned (file : SourceFile) (text description : Path) (k l : Journal) : Prop where
  spares : Spares file.written []
    [k.target text, k.target description, k.target file.output, k.target file.document] k l
  text : Gone (k.target text) l
  description : Gone (k.target description) l

/-- The text is taken back when the document cannot be put beside it. -/
theorem Ready.leads_takeBack {text description : Path} (ready : Ready call file text description output document j)
    (different : j.target file.output ≠ j.target file.document)
    (spares : Spares file.written [] [j.target text, j.target description, j.target file.output] j k)
    (textGone : Gone (j.target text) k) (descriptionGone : Gone (j.target description) k) (e : FileError) :
    Leads call file.written (Together file) (do
      let _ ← (removeIfPresent file.output).outcome
      throw (.unwritable file.document e) : Attempt Failure Unit).outcome (fun result l =>
        Cleaned file text description j l ∧ result = .error (.unwritable file.document e) ∧
          l.workspace.fileAt (j.target file.document) = none) k := by
  have outside : j.target file.document ∉ [j.target text, j.target description, j.target file.output] := by
    simp [(ready.textApart _ file.document_mem).symm, (ready.descriptionApart _ file.document_mem).symm,
      different.symm]
  have removed {l : Journal} (removing : Spares file.written [] [j.target file.output] k l) :
      Spares file.written [] [j.target text, j.target description, j.target file.output] j l :=
    spares.trans (removing.widen (by simp))
  refine leads_attempt_bind (leads_lift (leads_mono (leads_removal file.output) ?_ ?_))
  · intro l removing
    rw [spares.target] at removing
    exact ready.together_of_spares (removed removing) outside
  · intro result l removing
    rw [spares.target] at removing
    exact leads_pure ⟨⟨(removed removing).widen (by simp),
      textGone.spares removing (by simpa using ready.textApart _ file.output_mem),
      descriptionGone.spares removing (by simpa using ready.descriptionApart _ file.output_mem)⟩, rfl,
      ready.absent_of_spares (removed removing) outside⟩

/-- Once the text is in place, the document is put beside it or the text is taken back. -/
theorem Ready.leads_commitDocument {text description : Path}
    (ready : Ready call file text description output document j)
    (different : j.target file.output ≠ j.target file.document) (moved : Moved file.written ⟨text, file.output⟩ j k) :
    Leads call file.written (Together file) (do
      match ← (commit ⟨description, file.document⟩).tried with
      | .ok _ => return
      | .error e =>
        let _ ← (removeIfPresent file.output).outcome
        throw (.unwritable file.document e) : Attempt Failure Unit).outcome (fun result l =>
          Cleaned file text description j l ∧ match result with
            | .ok _ => Placed call file output document l
            | .error e => (∃ p e', e = .unwritable p e') ∧ l.workspace.fileAt (j.target file.document) = none) k := by
  have textApart := ready.textApart _ file.document_mem
  have descriptionApart := ready.descriptionApart _ file.document_mem
  have gone : Gone (j.target text) k := Or.inl (moved.left (ready.textApart _ file.output_mem))
  have waiting {l : Journal} (spares : Spares file.written [] [j.target description] k l) :
      Spares file.written [] [j.target text, j.target description, j.target file.output] j l :=
    (moved.spares.widen (by simp)).trans (spares.widen (by simp))
  refine leads_attempt_bind (leads_tried (leads_mono (leads_commit _) ?_ ?_))
  · -- the document comes with the operation that puts it beside its own text
    rintro l (spares | moved')
    · rw [moved.spares.target] at spares
      exact ready.together_of_spares (waiting spares)
        (by simp [textApart.symm, descriptionApart.symm, different.symm])
    · exact (ready.placed different moved moved').together
  · intro result l ended
    cases result with
    | ok _ =>
      have moved' : Moved file.written ⟨description, file.document⟩ k l := ended
      have spares := moved'.spares
      have left := moved'.left
      simp only [moved.spares.target] at spares left
      have cleaned : Cleaned file text description j l :=
        ⟨(moved.spares.widen (by simp)).trans (spares.widen (by simp)),
          gone.spares spares (by simp [ready.separate, textApart]), Or.inl (left descriptionApart)⟩
      exact leads_pure ⟨cleaned, ready.placed different moved moved'⟩
    | error e =>
      obtain ⟨spares, gone'⟩ := ended
      rw [moved.spares.target] at spares gone'
      refine leads_mono (ready.leads_takeBack different (waiting spares)
        (gone.spares spares (by simpa using ready.separate)) gone' e) (fun _ => id) ?_
      rintro result m ⟨cleaned, rfl, absent⟩
      exact ⟨cleaned, ⟨_, e, rfl⟩, absent⟩

theorem Ready.leads_commitPair {text description : Path} (ready : Ready call file text description output document j)
    (different : j.target file.output ≠ j.target file.document) :
    Leads call file.written (Together file) (do
      orDiscard ⟨description, file.document⟩ do
        let _ ← (commit ⟨text, file.output⟩).mapError (.unwritable file.output)
      match ← (commit ⟨description, file.document⟩).tried with
      | .ok _ => return
      | .error e =>
        let _ ← (removeIfPresent file.output).outcome
        throw (.unwritable file.document e) : Attempt Failure Unit).outcome (fun result k =>
          Cleaned file text description j k ∧ match result with
            | .ok _ => Placed call file output document k
            | .error e => (∃ p e', e = .unwritable p e') ∧ k.workspace.fileAt (j.target file.document) = none) j := by
  have textApart := ready.textApart _ file.document_mem
  have descriptionApart := ready.descriptionApart _ file.document_mem
  refine leads_attempt_bind
    (leads_orDiscard (leads_attempt_bind (leads_mapError (leads_mono (leads_commit _) ?_ ?_))))
  · rintro k (spares | moved)
    · exact ready.together_of_spares spares (by simpa using textApart.symm)
    · exact ready.together_of_spares moved.spares (by simp [textApart.symm, different.symm])
  · intro result k ended
    cases result with
    | ok _ => exact leads_pure (ready.leads_commitDocument different ended)
    | error e =>
      obtain ⟨spares, gone⟩ := ended
      intro l removing gone'
      rw [spares.target] at removing gone'
      have both : Spares file.written [] [j.target text, j.target description] j l :=
        (spares.widen (by simp)).trans (removing.widen (by simp))
      have outside : j.target file.document ∉ [j.target text, j.target description] := by
        simp [textApart.symm, descriptionApart.symm]
      have cleaned : Cleaned file text description j l :=
        ⟨both.widen (by simp), gone.spares removing (by simpa using ready.separate), gone'⟩
      exact ⟨ready.together_of_spares both outside, cleaned, ⟨_, e, rfl⟩, ready.absent_of_spares both outside⟩

theorem Workspace.Sound.of_spares {parents : List Path} {touched : List DiskLocation} {paths : List Path}
    (sound : j.workspace.Sound) (spares : Spares paths parents touched j k) : k.workspace.Sound := by
  intro lives
  rw [spares.directory] at lives ⊢
  exact spares.keeps _ (sound lives)

/-- Once the old document has gone, text and document are ready. -/
theorem Staging.Waits.ready {tag tag' : String} (waits : Waits call file.written file.output tag output j k)
    (cleared : Cleared call file tag' document k l) :
    Ready call file (temporary file.output tag) (temporary file.document tag') output document l := by
  have separate : j.target (temporary file.output tag) ≠ k.target (temporary file.document tag') := by
    intro same
    have standing := waits.entry
    rw [same, cleared.free] at standing
    cases standing
  have elsewhere : j.target (temporary file.output tag) ∉
      [k.target (temporary file.document tag'), k.target file.document] := by
    rw [waits.spares.target file.document]
    simp [separate, waits.apart _ file.document_mem]
  constructor
  · rw [cleared.spares.target, waits.spares.target]
    exact cleared.spares.entry_eq elsewhere waits.entry
  · rw [cleared.spares.target, waits.spares.target, cleared.spares.authors _ elsewhere (by simp [waits.entry]),
      waits.author]
  · intro p known
    rw [cleared.spares.target, cleared.spares.target, waits.spares.target, waits.spares.target]
    exact waits.apart p known
  · rw [cleared.spares.target]
    exact cleared.entry
  · rw [cleared.spares.target]
    exact cleared.author
  · intro p known
    rw [cleared.spares.target, cleared.spares.target]
    exact cleared.apart p known
  · rw [cleared.spares.target, cleared.spares.target, waits.spares.target]
    exact separate
  · rw [cleared.spares.target]
    exact cleared.absent

/-- Both waiting files are forgotten once they have gone. -/
theorem Cleaned.settle {tag tag' : String} {m : Journal}
    (cleaned : Cleaned file (temporary file.output tag) (temporary file.document tag') l m)
    (waits : Waits call file.written file.output tag output j k) (cleared : Cleared call file tag' document k l) :
    Spares file.written file.parents [j.target file.output, j.target file.document] j m := by
  have ready := waits.ready cleared
  obtain ⟨ending, textGone, descriptionGone⟩ := cleaned
  have separate := ready.separate
  have free := cleared.free
  have apart := cleared.apart
  have clearing := cleared.spares
  simp only [cleared.spares.target, waits.spares.target]
    at ending textGone descriptionGone separate free apart clearing
  have all : Spares file.written file.parents [j.target (temporary file.output tag),
      j.target (temporary file.document tag'), j.target file.output, j.target file.document] j m := by
    refine (waits.spares.weaken (List.subset_append_left _ _) ?_).trans
      ((clearing.weaken (List.subset_append_right _ _) ?_).trans
        (ending.weaken (List.nil_subset _) (List.Subset.refl _)))
    · simp
    · simp
  have free := waits.spares.entry_eq_none (by simpa using separate.symm) free
  exact (all.settle waits.free waits.apart textGone).settle free apart descriptionGone

/-- What writing a pair of files ends with. -/
def WritesPair (call : Nat) (file : SourceFile) (output document : Octets) (j : Journal)
    (result : Except Failure Unit) (k : Journal) : Prop :=
  Spares file.written file.parents [j.target file.output, j.target file.document] j k ∧ match result with
    | .ok _ => Placed call file output document k
    | .error e => (∃ p e', e = .unwritable p e') ∧
        (Spares file.written file.parents [] j k ∨ k.workspace.fileAt (j.target file.document) = none)

theorem leads_writePair (sound : j.workspace.Sound) (different : j.target file.output ≠ j.target file.document)
    (output document : Octets) :
    Leads call file.written (fun k => j.Together file → k.Together file) (writePair file output document).outcome
      (WritesPair call file output document j) j := by
  have forOutput : Staging.parents file.output ⊆ file.parents := List.subset_append_left _ _
  have forDocument : Staging.parents file.document ⊆ file.parents := List.subset_append_right _ _
  have unwritten {k : Journal} {p : Path} {e : FileError} (spares : Spares file.written file.parents [] j k) :
      WritesPair call file output document j (.error (.unwritable p e)) k :=
    ⟨spares.widen (List.nil_subset _), ⟨p, e, rfl⟩, Or.inl spares⟩
  refine leads_attempt_bind (leads_mapError (leads_mono (leads_stage file.output_mem output)
    (fun k beside => beside.together) ?_))
  intro result k staged
  cases result with
  | error e => exact unwritten (staged.weaken forOutput (List.Subset.refl _))
  | ok text =>
    obtain ⟨tag, rfl, waits⟩ := staged
    have spares := waits.spares.weaken forOutput (List.Subset.refl _)
    have beside {l : Journal}
        (spares : Spares file.written file.parents [j.target (temporary file.output tag)] j l) :
        j.Together file → l.Together file :=
      Beside.together ⟨_, by simpa using waits.apart, spares⟩
    refine leads_attempt_bind (leads_orDiscard (leads_mono (leads_clear (sound.of_spares spares) document)
      (fun l keeps together => keeps (beside spares together)) ?_))
    intro result l ended
    cases result with
    | error e =>
      obtain ⟨⟨e, rfl⟩, clearing⟩ := ended
      have spares := spares.trans (clearing.weaken forDocument (List.nil_subset _))
      intro m removing gone
      rw [spares.target] at removing gone
      have spares := spares.trans (removing.weaken (List.nil_subset _) (List.Subset.refl _))
      exact ⟨beside spares, unwritten (spares.settle waits.free waits.apart gone)⟩
    | ok description =>
      obtain ⟨tag', rfl, cleared⟩ := ended
      have ready := waits.ready cleared
      have target (p : Path) : l.target p = j.target p := by rw [cleared.spares.target, spares.target]
      refine leads_mono (ready.leads_commitPair ?_) (fun l together _ => together) ?_
      · rw [target, target]
        exact different
      · rintro result m ⟨cleaned, ended⟩
        refine ⟨cleaned.settle waits cleared, ?_⟩
        cases result with
        | ok _ => exact ended
        | error e =>
          rw [target] at ended
          exact ⟨ended.1, Or.inr ended.2⟩

end SourceCoverage
