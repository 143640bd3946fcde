import SourceCoverage.FilePass
import SourceCoverage.Proofs.Staging

namespace SourceCoverage

open Staging Workspace

/-- The instrumented text and the document of a source. -/
def Workspace.pair (w : Workspace) (file : SourceFile) : Option Octets × Option Octets :=
  (w.fileAt (w.target file.output), w.fileAt (w.target file.document))

/-- Output and document are two files, and neither has a name under which the other waits. -/
structure SourceFile.Apart (file : SourceFile) (w : Workspace) : Prop where
  different : w.target file.output ≠ w.target file.document
  output : ∀ tag, IsTag tag → w.target (temporary file.output tag) ≠ w.target file.document
  document : ∀ tag, IsTag tag → w.target (temporary file.document tag) ≠ w.target file.output

variable {w after : Workspace} {file : SourceFile}

theorem SourceFile.Apart.of_directory (apart : file.Apart w) (same : after.directory = w.directory) :
    file.Apart after := by
  have targets : ∀ p, after.target p = w.target p := fun p => by rw [Workspace.target, same, Workspace.target]
  constructor <;> simp only [targets]
  · exact apart.different
  · exact apart.output
  · exact apart.document

theorem Workspace.ChangesOnly.pair {touched : List DiskLocation} (changes : ChangesOnly touched w after)
    (output : w.target file.output ∉ touched) (document : w.target file.document ∉ touched) :
    after.pair file = w.pair file := by
  rw [Workspace.pair, changes.target, changes.target, changes.files _ output, changes.files _ document,
    Workspace.pair]

/-- A document is staged and the one before it removed. If that fails, only waiting files have changed. -/
theorem ends_stage_remove {ε : Type} {text : Staged} {p : Path} {contents : Octets} {f : FileError → ε}
    {front : List String} {name : String} (steps : p.steps = front ++ [name]) (down : name ≠ "..")
    {result : Except ε Staged}
    (ends : Ends (orDiscard text do
      let staged ← (stage p contents).mapError f
      orDiscard staged ((removeIfPresent p).mapError f)
      return staged) w result after) :
    ∃ tag, IsTag tag ∧
      ((∃ e, result = .error e ∧ ChangesOnly [w.target text.temporary, w.target (temporary p tag)] w after) ∨
        result = .ok ⟨temporary p tag, p⟩ ∧ ChangesOnly [w.target (temporary p tag), w.target p] w after ∧
          after.fileAt (w.target p) = none ∧ after.fileAt (w.target (temporary p tag)) = some contents) := by
  obtain ⟨between, inner, outcome⟩ := ends_orDiscard ends
  -- Before anything is removed, all that may have changed is what waits for the document.
  have failing : ∀ {tag e}, result = .error e → ChangesOnly [w.target (temporary p tag)] w between →
      ChangesOnly [w.target text.temporary, w.target (temporary p tag)] w after := by
    intro tag e failed changes
    rcases outcome with ⟨_, ok, _⟩ | ⟨_, _, discarded⟩
    · rw [ok] at failed
      cases failed
    · rw [changes.target] at discarded
      exact (changes.weaken (by simp)).trans (discarded.weaken (by simp))
  rcases ends_bind.mp inner with ⟨e, rfl, failed⟩ | ⟨staged, ready, ended, rest⟩
  · obtain ⟨_, failed⟩ := ends_of_mapError_error failed
    obtain ⟨tag, isTag, changes, _⟩ := ends_stage failed
    exact ⟨tag, isTag, Or.inl ⟨e, rfl, failing rfl changes⟩⟩
  obtain ⟨tag, isTag, changes, ok⟩ := ends_stage (ends_of_mapError_ok ended)
  obtain ⟨rfl, disk, written⟩ := ok staged rfl
  refine ⟨tag, isTag, ?_⟩
  rcases ends_bind.mp rest with ⟨e, rfl, failed⟩ | ⟨_, removed, done, rest⟩
  · obtain ⟨kept, failed, ⟨_, ok, _⟩ | ⟨_, _, discarded⟩⟩ := ends_orDiscard failed
    · cases ok
    · obtain ⟨_, failed⟩ := ends_of_mapError_error failed
      obtain ⟨_, ⟨_, _, rfl⟩ | ⟨ok, _⟩⟩ := ends_removeIfPresent failed
      · rw [changes.target] at discarded
        exact Or.inl ⟨e, rfl, failing rfl (changes.trans discarded)⟩
      · cases ok
  · obtain ⟨rfl, rfl⟩ := ends_pure.mp rest
    obtain ⟨_, _, rfl⟩ | ⟨_, failed, _⟩ := outcome
    · obtain ⟨gone, ended, ⟨_, _, rfl⟩ | ⟨_, failed, _⟩⟩ := ends_orDiscard done
      · obtain ⟨removes, ⟨_, failed, _⟩ | ⟨_, absent⟩⟩ := ends_removeIfPresent (ends_of_mapError_ok ended)
        · cases failed
        · obtain ⟨place, reaches⟩ := reaches_of_temporary isTag steps down written
          rw [changes.target] at removes absent
          refine Or.inr ⟨rfl, (changes.weaken (by simp)).trans (removes.weaken (by simp)), ?_, ?_⟩
          · rw [← changes.directory] at reaches
            exact absent steps down reaches
          · rw [removes.files _ (by simpa using target_temporary_ne w p isTag)]
            exact (Disk.file?_write written _).trans (if_pos rfl)
      · cases failed
    · cases failed

/-- A text that waits is put in its place. If that fails, its document does not wait any longer either. -/
theorem ends_commit_text {ε : Type} {text description : Staged} {f : FileError → ε} {result : Except ε Unit}
    (ends : Ends (orDiscard description do
      let _ ← (commit text).mapError f) w result after) :
    (∃ e, result = .error e ∧ ChangesOnly [w.target text.temporary, w.target description.temporary] w after) ∨
      result = .ok () ∧ after.directory = w.directory ∧
        ∃ contents, w.fileAt (w.target text.temporary) = some contents ∧ ∀ location, after.fileAt location =
          if location = w.target text.target then some contents
          else if location = w.target text.temporary then none else w.fileAt location := by
  obtain ⟨between, committed, ⟨_, rfl, rfl⟩ | ⟨e, rfl, discarded⟩⟩ := ends_orDiscard ends
  · rcases ends_bind.mp committed with ⟨_, failed, _⟩ | ⟨_, moved, committed, done⟩
    · cases failed
    obtain ⟨_, rfl⟩ := ends_pure.mp done
    rcases ends_commit (ends_of_mapError_ok committed) with ⟨_, failed, _⟩ | ⟨_, moves⟩
    · cases failed
    · exact Or.inr ⟨rfl, moves⟩
  · rcases ends_bind.mp committed with ⟨_, _, failed⟩ | ⟨_, _, _, done⟩
    · obtain ⟨_, failed⟩ := ends_of_mapError_error failed
      rcases ends_commit failed with ⟨_, _, changes⟩ | ⟨⟨_, ok⟩, _⟩
      · rw [changes.target] at discarded
        exact Or.inl ⟨e, rfl, (changes.weaken (by simp)).trans (discarded.weaken (by simp))⟩
      · cases ok
    · cases (ends_pure.mp done).1

/-- A document that waits is put in its place. If that fails, a text is taken away again. -/
theorem ends_commit_document {ε : Type} {description : Staged} {p : Path} {g : FileError → ε} {result : Except ε Unit}
    (ends : Ends (do
      match ← (commit description).tried with
      | .ok _ => return
      | .error e =>
        let _ ← (removeIfPresent p).outcome
        throw (g e) : Attempt ε Unit) w result after) :
    (∃ e, result = .error e ∧ ChangesOnly [w.target description.temporary, w.target p] w after) ∨
      result = .ok () ∧ ∃ contents, w.fileAt (w.target description.temporary) = some contents ∧
        ∀ location, after.fileAt location =
          if location = w.target description.target then some contents
          else if location = w.target description.temporary then none else w.fileAt location := by
  rcases ends_bind.mp ends with ⟨_, _, failed⟩ | ⟨answer, last, tried, rest⟩
  · obtain ⟨_, failure, _⟩ := ends_tried.mp failed
    cases failure
  obtain ⟨_, same, tried⟩ := ends_tried.mp tried
  cases same
  rcases ends_commit tried with ⟨e, rfl, changes⟩ | ⟨⟨q, rfl⟩, _, moves⟩
  · rcases ends_bind.mp rest with ⟨_, _, failed⟩ | ⟨_, cleared, removed, thrown⟩
    · obtain ⟨_, failure, _⟩ := ends_lift.mp failed
      cases failure
    · obtain ⟨rfl, rfl⟩ := ends_throw.mp thrown
      obtain ⟨_, _, removed⟩ := ends_lift.mp removed
      have removes := (ends_removeIfPresent removed).1
      rw [changes.target] at removes
      exact Or.inl ⟨_, rfl, (changes.weaken (by simp)).trans (removes.weaken (by simp))⟩
  · obtain ⟨rfl, rfl⟩ := ends_pure.mp rest
    exact Or.inr ⟨rfl, moves⟩

/-- A text that waits is put in its place, and then its document. Where there was no document, there is one afterwards
only if both are in place. -/
theorem ends_commit_commit {ε : Type} {text description : Staged} {f g : FileError → ε} {result : Except ε Unit}
    (absent : w.fileAt (w.target description.target) = none)
    (different : w.target text.target ≠ w.target description.target)
    (textApart : w.target text.temporary ≠ w.target description.target)
    (descriptionWaits : w.target description.temporary ≠ w.target description.target)
    (descriptionApart : w.target description.temporary ≠ w.target text.target)
    (ends : Ends (do
      orDiscard description do
        let _ ← (commit text).mapError f
      match ← (commit description).tried with
      | .ok _ => return
      | .error e =>
        let _ ← (removeIfPresent text.target).outcome
        throw (g e)) w result after) :
    after.fileAt (w.target description.target) = none ∨
      w.target text.temporary ≠ w.target description.temporary ∧
        after.fileAt (w.target text.target) = w.fileAt (w.target text.temporary) ∧
        after.fileAt (w.target description.target) = w.fileAt (w.target description.temporary) := by
  rcases ends_bind.mp ends with ⟨e, rfl, failed⟩ | ⟨_, shown, committed, rest⟩
  · rcases ends_commit_text failed with ⟨_, _, changes⟩ | ⟨ok, _⟩
    · left
      rw [changes.files _ (by simpa using ⟨Ne.symm textApart, Ne.symm descriptionWaits⟩), absent]
    · cases ok
  rcases ends_commit_text committed with ⟨_, failed, _⟩ | ⟨_, directory, output, waited, files⟩
  · cases failed
  have targets (p : Path) : shown.target p = w.target p := by rw [Workspace.target, directory, Workspace.target]
  rcases ends_commit_document rest with ⟨_, _, changes⟩ | ⟨_, document, waited', files'⟩
  · -- The text is taken away again, and even if that fails there is no document.
    simp only [targets] at changes
    left
    rw [changes.files _ (by simpa using ⟨Ne.symm descriptionWaits, Ne.symm different⟩), files,
      if_neg (Ne.symm different), if_neg (Ne.symm textApart), absent]
  · simp only [targets] at waited' files'
    -- The text has left its waiting place, so the document waited at another.
    have apart : w.target text.temporary ≠ w.target description.temporary := by
      intro same
      rw [files, if_neg descriptionApart, if_pos same.symm] at waited'
      cases waited'
    refine Or.inr ⟨apart, ?_, ?_⟩
    · rw [files', if_neg different, if_neg (Ne.symm descriptionApart), files, if_pos rfl, waited]
    · rw [files', if_pos rfl, ← waited', files, if_neg descriptionApart, if_neg (Ne.symm apart)]

theorem ends_writePair (apart : file.Apart w) {front : List String} {name : String}
    (steps : file.document.steps = front ++ [name]) (down : name ≠ "..") {output document : Octets}
    {result : Except Failure Unit} (ends : Ends (writePair file output document) w result after) :
    after.pair file = w.pair file ∨ (after.pair file).2 = none ∨
      after.pair file = (some output, some document) := by
  rcases ends_bind.mp ends with ⟨e, rfl, failed⟩ | ⟨text, ready, staged, rest⟩
  · obtain ⟨_, failed⟩ := ends_of_mapError_error failed
    obtain ⟨tag, isTag, changes, _⟩ := ends_stage failed
    refine Or.inl (changes.pair ?_ ?_)
    · simpa using Ne.symm (target_temporary_ne w file.output isTag)
    · simpa using Ne.symm (apart.output tag isTag)
  obtain ⟨tag, isTag, changes, ok⟩ := ends_stage (ends_of_mapError_ok staged)
  obtain ⟨rfl, disk, written⟩ := ok text rfl
  have waits : ready.fileAt (w.target (temporary file.output tag)) = some output :=
    (Disk.file?_write written _).trans (if_pos rfl)
  rcases ends_bind.mp rest with ⟨e, rfl, failed⟩ | ⟨description, cleared, staged, rest⟩
  · obtain ⟨tag', isTag', ⟨_, _, changes'⟩ | ⟨ok, _⟩⟩ := ends_stage_remove steps down failed
    · rw [changes.target, changes.target] at changes'
      have both := (changes.weaken (by simp)).trans changes'
      refine Or.inl (both.pair ?_ ?_)
      · simpa using ⟨Ne.symm (target_temporary_ne w file.output isTag), Ne.symm (apart.document tag' isTag')⟩
      · simpa using ⟨Ne.symm (apart.output tag isTag), Ne.symm (target_temporary_ne w file.document isTag')⟩
    · cases ok
  obtain ⟨tag', isTag', ⟨_, failed, _⟩ | ⟨ok, changes', absent, waits'⟩⟩ := ends_stage_remove steps down staged
  · cases failed
  cases ok
  have targets : ∀ p, cleared.target p = w.target p := fun p => (changes'.target p).trans (changes.target p)
  simp only [changes.target] at changes' absent waits'
  have outcome := ends_commit_commit (by rw [targets]; exact absent)
    (by simpa only [targets] using apart.different) (by simpa only [targets] using apart.output tag isTag)
    (by simpa only [targets] using target_temporary_ne w file.document isTag')
    (by simpa only [targets] using apart.document tag' isTag') rest
  have pair : after.pair file = (after.fileAt (w.target file.output), after.fileAt (w.target file.document)) := by
    simp only [Workspace.pair, Workspace.target, runs_directory ends]
  right
  rw [pair]
  simp only [targets] at outcome
  rcases outcome with none | ⟨separate, text, description⟩
  · exact Or.inl none
  · right
    rw [text, description, waits', changes'.files _ ?_, waits]
    simpa using ⟨separate, apart.output tag isTag⟩

theorem ends_readSource {p : Path} {result : Except Failure Octets} (ends : Ends (readSource p) w result after) :
    after = w ∧ ∀ source, result = .ok source →
      w.disk.read w.directory p = .ok source ∧ ∃ text, Utf8.decode source = .ok text := by
  rcases ends_bind.mp ends with ⟨_, _, failed⟩ | ⟨answer, between, tried, rest⟩
  · obtain ⟨_, failure, _⟩ := ends_tried.mp failed
    cases failure
  obtain ⟨_, same, runs⟩ := ends_tried.mp tried
  cases same
  obtain ⟨rfl, honest⟩ := happens_read (runs_perform.mp runs)
  cases answer with
  | error e =>
    obtain ⟨rfl, rfl⟩ := ends_throw.mp rest
    exact ⟨rfl, fun _ ok => nomatch ok⟩
  | ok contents =>
    dsimp only at rest
    split at rest
    · obtain ⟨rfl, rfl⟩ := ends_throw.mp rest
      exact ⟨rfl, fun _ ok => nomatch ok⟩
    · rename_i text decoded
      obtain ⟨rfl, rfl⟩ := ends_pure.mp rest
      refine ⟨rfl, fun source same => ?_⟩
      cases same
      exact ⟨honest contents rfl, text, decoded⟩

variable {codec : Codec} {grammar : Grammar} {settings : Settings}

theorem ends_load {p : Path} {result : Except Failure Document} (ends : Ends (Document.load codec p) w result after) :
    after = w ∧ ∀ document, result = .ok document →
      ∃ bytes, w.disk.read w.directory p = .ok bytes ∧ Document.ofFile codec bytes = .ok document := by
  rcases ends_bind.mp ends with ⟨_, _, failed⟩ | ⟨answer, between, tried, rest⟩
  · obtain ⟨_, failure, _⟩ := ends_tried.mp failed
    cases failure
  obtain ⟨_, same, runs⟩ := ends_tried.mp tried
  cases same
  obtain ⟨rfl, honest⟩ := happens_read (runs_perform.mp runs)
  cases answer with
  | error e =>
    obtain ⟨rfl, rfl⟩ := ends_throw.mp rest
    exact ⟨rfl, fun _ ok => nomatch ok⟩
  | ok bytes =>
    dsimp only at rest
    split at rest
    · obtain ⟨rfl, rfl⟩ := ends_throw.mp rest
      exact ⟨rfl, fun _ ok => nomatch ok⟩
    · rename_i document decoded
      obtain ⟨rfl, rfl⟩ := ends_pure.mp rest
      refine ⟨rfl, fun _ same => ?_⟩
      cases same
      exact ⟨bytes, honest bytes rfl, decoded⟩

/-- What has been seen of the files of a source when they are used again. -/
structure Reusable (codec : Codec) (w : Workspace) (file : SourceFile) (sourceHash settingsHash : String) : Prop where
  output : ∃ contents, w.disk.read w.directory file.output = .ok contents
  document : ∃ bytes document, w.disk.read w.directory file.document = .ok bytes ∧
    Document.ofFile codec bytes = .ok document ∧ document.sourceHash = sourceHash ∧
      document.settingsHash = settingsHash

theorem eq_of_miss? {d : Document} {sourceHash settingsHash : String}
    (fits : d.miss? sourceHash settingsHash = none) :
    d.sourceHash = sourceHash ∧ d.settingsHash = settingsHash := by
  unfold Document.miss? at fits
  split_ifs at fits with changed changed'
  exact ⟨by simpa using changed, by simpa using changed'⟩

theorem runs_reuseMiss? {force : Bool} {sourceHash settingsHash : String} {result : Option ReuseMiss}
    (runs : Runs (reuseMiss? codec force file sourceHash settingsHash) w result after) :
    after = w ∧ (result = none → Reusable codec w file sourceHash settingsHash) := by
  unfold reuseMiss? at runs
  split_ifs at runs
  · obtain ⟨rfl, rfl⟩ := runs_pure.mp runs
    exact ⟨rfl, fun none => nomatch none⟩
  obtain ⟨there, _, asked, runs⟩ := runs_bind.mp runs
  obtain ⟨rfl, isFile⟩ := happens_isFile (runs_perform.mp asked)
  cases there with
  | false =>
    obtain ⟨rfl, rfl⟩ := runs_pure.mp runs
    exact ⟨rfl, fun none => nomatch none⟩
  | true =>
    obtain ⟨loaded, _, ends, runs⟩ := runs_bind.mp runs
    obtain ⟨rfl, found⟩ := ends_load ends
    cases loaded with
    | error failure =>
      obtain ⟨rfl, rfl⟩ := runs_pure.mp runs
      exact ⟨rfl, fun none => nomatch none⟩
    | ok document =>
      obtain ⟨rfl, rfl⟩ := runs_pure.mp runs
      refine ⟨rfl, fun fits => ⟨isFile rfl, ?_⟩⟩
      obtain ⟨bytes, read, decoded⟩ := found document rfl
      exact ⟨bytes, document, read, decoded, eq_of_miss? fits⟩

/-- A pass that uses files again has changed nothing. -/
theorem ends_passFile_reused (ends : Ends (passFile codec grammar settings file) w (.ok .reused) after) :
    after = w ∧ ∃ source, w.disk.read w.directory file.input = .ok source ∧
      Reusable codec w file (Sha256.digest source) (settings.fingerprint file.input) := by
  rcases ends_bind.mp ends with ⟨_, failed, _⟩ | ⟨source, _, read, rest⟩
  · cases failed
  obtain ⟨rfl, found⟩ := ends_readSource read
  rcases ends_bind.mp rest with ⟨_, failed, _⟩ | ⟨miss, _, asked, rest⟩
  · cases failed
  obtain ⟨_, same, runs⟩ := ends_lift.mp asked
  cases same
  obtain ⟨rfl, reusable⟩ := runs_reuseMiss? runs
  cases miss with
  | none => exact ⟨(ends_pure.mp rest).2, source, (found source rfl).1, reusable rfl⟩
  | some reason =>
    rcases ends_bind.mp rest with ⟨_, failed, _⟩ | ⟨made, _, _, rest⟩
    · cases failed
    rcases ends_bind.mp rest with ⟨_, failed, _⟩ | ⟨_, _, _, rest⟩
    · cases failed
    cases (ends_pure.mp rest).1

/-- However a pass ends, the pair is as before, has no document, or is the one made from the source. -/
theorem ends_passFile (apart : file.Apart w) {front : List String} {name : String}
    (steps : file.document.steps = front ++ [name]) (down : name ≠ "..") {result : Except Failure Outcome}
    (ends : Ends (passFile codec grammar settings file) w result after) :
    after.pair file = w.pair file ∨ (after.pair file).2 = none ∨
      ∃ source made, w.fileAt (w.target file.input) = some source ∧
        Instrumentation.ofSource grammar settings file.input source = .ok made ∧
        after.pair file = (some made.output, some (made.document.file codec settings.compressDocument)) := by
  rcases ends_bind.mp ends with ⟨_, _, failed⟩ | ⟨source, _, read, rest⟩
  · rw [(ends_readSource failed).1]
    exact Or.inl rfl
  obtain ⟨rfl, found⟩ := ends_readSource read
  rcases ends_bind.mp rest with ⟨_, _, failed⟩ | ⟨miss, _, asked, rest⟩
  · obtain ⟨_, failure, _⟩ := ends_lift.mp failed
    cases failure
  obtain ⟨_, same, runs⟩ := ends_lift.mp asked
  cases same
  obtain ⟨rfl, _⟩ := runs_reuseMiss? runs
  cases miss with
  | none =>
    rw [(ends_pure.mp rest).2]
    exact Or.inl rfl
  | some reason =>
    rcases ends_bind.mp rest with ⟨_, _, failed⟩ | ⟨made, _, given, writing⟩
    · rw [(ends_ofExcept.mp failed).2]
      exact Or.inl rfl
    obtain ⟨instrumented, rfl⟩ := ends_ofExcept.mp given
    obtain ⟨answer, written⟩ : ∃ answer,
        Ends (writePair file made.output (made.document.file codec settings.compressDocument)) _ answer after := by
      rcases ends_bind.mp writing with ⟨_, _, written⟩ | ⟨_, _, written, done⟩
      · exact ⟨_, written⟩
      · obtain ⟨_, rfl⟩ := ends_pure.mp done
        exact ⟨_, written⟩
    rcases ends_writePair apart steps down written with same | none | new
    · exact Or.inl same
    · exact Or.inr (Or.inl none)
    · exact Or.inr (Or.inr ⟨source, made, Disk.file?_of_read (found source rfl).1, instrumented.symm, new⟩)

end SourceCoverage
