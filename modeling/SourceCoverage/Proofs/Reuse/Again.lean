import SourceCoverage.Proofs.Finder.Consistent
import SourceCoverage.Proofs.Reuse.Together

namespace SourceCoverage

open Journal Workspace

variable {file : SourceFile} {codec : Codec} {grammar : Grammar} {settings : Settings} {w : Workspace}

theorem run_readSource {p : Path} {source : Octets} {text : String} (stored : w.disk.read w.directory p = .ok source)
    (decoded : Utf8.decode source = .ok text) : w.run (readSource p).outcome = (.ok source, w) := by
  have answered : w.run (Attempt.tried (Script.perform (.read p)) : Attempt Failure _).outcome =
      (.ok (.ok source), w) := by
    rw [← stored]
    rfl
  rw [readSource, run_attempt_bind answered]
  dsimp only
  rw [decoded]
  rfl

/-- When text and document can be read, it is for the document to say whether they can be used again. -/
theorem run_reuseMiss? {contents bytes : Octets} {d : Document} {sourceHash settingsHash : String}
    (output : w.disk.read w.directory file.output = .ok contents)
    (document : w.disk.read w.directory file.document = .ok bytes) (opened : Document.ofFile codec bytes = .ok d) :
    w.run (reuseMiss? codec false file sourceHash settingsHash) = (d.miss? sourceHash settingsHash, w) := by
  have there : w.run (Script.perform (.isFile file.output)) = (true, w) := by
    change (w.isFile file.output, w) = _
    rw [isFile, stat, Disk.read_eq_ok_iff.mp output]
  have loaded : w.run (Document.load codec file.document).outcome = (.ok d, w) := by
    rw [Document.run_load document, opened]
    rfl
  unfold reuseMiss?
  rw [if_neg (by decide), run_bind, there]
  refine (run_bind _ _ w).trans ?_
  rw [loaded]
  rfl

theorem run_passFile_reused {source : Octets} {text : String}
    (stored : w.disk.read w.directory file.input = .ok source) (decoded : Utf8.decode source = .ok text)
    (fits : w.run (reuseMiss? codec settings.force file (Sha256.digest source) (settings.fingerprint file.input)) =
      (none, w)) :
    w.run (passFile codec grammar settings file).outcome = (.ok .reused, w) := by
  rw [passFile, run_attempt_bind (run_readSource stored decoded)]
  refine (run_attempt_bind (run_lift _ w)).trans ?_
  rw [fits]
  rfl

theorem miss?_eq_none {d : Document} {sourceHash settingsHash : String} (source : d.sourceHash = sourceHash)
    (settings : d.settingsHash = settingsHash) : d.miss? sourceHash settingsHash = none := by
  simp [Document.miss?, source, settings]

theorem Document.inconsistency?_withSettings (d : Document) (hash : String) :
    { d with settingsHash := hash }.inconsistency? = d.inconsistency? := by
  unfold inconsistency?
  rfl

/-- The document of a source can be read back unless it is too deep or its ids have run out. -/
theorem Instrumentation.ofFile_document {made : Instrumentation} {input : Path} {source : Octets}
    (instrumented : ofSource grammar settings input source = .ok made) (codec : Codec) (compress : Bool)
    (read : Document) :
    Document.ofFile codec (made.document.file codec compress) = .ok read ↔
      (made.document.IsShallow ∧ made.document.markers.length ≤ 2 ^ 32) ∧ read = made.document.restored := by
  obtain ⟨root, success, document⟩ := document_eq_of_ofSource instrumented
  have version : made.document.formatVersion = Document.currentFormat := by rw [document]; rfl
  have consistent := Finder.inconsistency?_walk success
  generalize (Finder.walk settings.decisionPolicy root { sourceHash := Sha256.digest source }).ledger = ledger
    at document consistent
  have length : made.document.markers.length = ledger.markers.length := by
    rw [document]
    exact List.length_mergeSort _
  have same : made.document.inconsistency? = ledger.finalize.inconsistency? := by
    rw [document, Document.inconsistency?_withSettings]
  rw [Document.ofFile_eq_ok_iff, same, consistent, length]
  tauto

/-- After a pass that has instrumented a source, the next one uses text and document again and changes nothing, if and
only if no condition tree is more than 124 levels deep and every marker has an id of its own. -/
theorem run_passFile_again {call markers decisions : Nat} {reason : ReuseMiss} {author : DiskLocation → Nat}
    {visited : List Journal} {last : Journal} (sound : w.Sound)
    (different : w.target file.output ≠ w.target file.document) (output : w.target file.input ≠ w.target file.output)
    (document : w.target file.input ≠ w.target file.document)
    (logged : Logged call (passFile codec grammar settings file).outcome { workspace := w, author } visited
      (.ok (.instrumented markers decisions reason)) last) (fresh : last.DrewFresh file.written) :
    ∃ source made, w.disk.read w.directory file.input = .ok source ∧
      Instrumentation.ofSource grammar settings file.input source = .ok made ∧
      (last.workspace.run (passFile codec grammar { settings with force := false } file).outcome =
          (.ok .reused, last.workspace) ↔
        (∀ decision ∈ made.document.decisions, decision.tree.depth ≤ 124) ∧ markers ≤ 2 ^ 32) := by
  obtain ⟨_, source, made, read, ⟨text, decoded⟩, instrumented, rfl, spares, placed⟩ :=
    leads_passFile (j := { workspace := w, author }) sound different _ _ _ logged fresh
  refine ⟨source, made, read, instrumented, ?_⟩
  -- the first pass has written beside the source, so the second one reads the same text
  have input : last.workspace.disk.read last.workspace.directory file.input = .ok source := by
    have standing : w.disk.get? (w.target file.input) = some (.file source) :=
      Disk.file?_eq_some_iff.mp (Disk.file?_of_read read)
    have outside : w.target file.input ∉ [w.target file.output, w.target file.document] := by simp [output, document]
    rw [spares.directory]
    exact Disk.read_mono spares.keeps read ((spares.entry_eq outside standing).trans standing.symm)
  obtain ⟨sourceHash, settingsHash, _⟩ := Instrumentation.document_of_ofSource instrumented
  have readable := Instrumentation.ofFile_document instrumented codec settings.compressDocument
  constructor
  · intro reused
    have ends := runs_run (passFile codec grammar { settings with force := false } file).outcome last.workspace
    rw [reused] at ends
    obtain ⟨_, _, _, reusable⟩ := ends_passFile_reused ends
    obtain ⟨bytes, found, stored, opened, _⟩ := reusable.document
    rw [placed.document] at stored
    cases stored
    exact ((readable found).mp opened).1
  · intro fits
    have opened := (readable made.document.restored).mpr ⟨fits, rfl⟩
    refine run_passFile_reused input decoded ?_
    rw [run_reuseMiss? placed.output placed.document opened]
    exact Prod.ext (miss?_eq_none sourceHash settingsHash) rfl

/-- A second pass over the caller finds all as the first one has left it. -/
theorem run_passFile_again_caller : ∃ visited last,
    Logged 1 (callerPass {}) { workspace := callerStart, author := fun _ => 0 } visited
      (.ok (.instrumented 1 0 .outputMissing)) last ∧ last.DrewFresh callerFile.written ∧
    last.workspace.run (callerPass {}) = (.ok .reused, last.workspace) := by
  have logged := logged_record 1 (callerPass {}) { workspace := callerStart, author := fun _ => 0 }
  rw [show (record 1 (callerPass {}) { workspace := callerStart, author := fun _ => 0 }).2.1 =
    .ok (.instrumented 1 0 .outputMissing) by decide +kernel] at logged
  have fresh : (record 1 (callerPass {}) { workspace := callerStart, author := fun _ => 0 }).2.2.DrewFresh
      callerFile.written := by
    decide +kernel
  have stored : callerStart.disk.read callerStart.directory callerFile.input =
      .ok (Utf8.encode "void f(void){g();}") := by
    decide +kernel
  have flat : (Instrumentation.ofSource (.ofConcrete fun _ _ => .ok callerTree) {} callerFile.input
      (Utf8.encode "void f(void){g();}")).toOption.map (·.document.decisions) = some [] := by
    decide +kernel
  have sound : callerStart.Sound := fun _ => by decide +kernel
  obtain ⟨source, made, read, instrumented, again⟩ :=
    run_passFile_again sound (by decide +kernel) (by decide +kernel) (by decide +kernel) logged fresh
  rw [stored] at read
  cases read
  rw [instrumented] at flat
  have decisions : made.document.decisions = [] := Option.some.inj flat
  exact ⟨_, _, logged, fresh, again.mpr ⟨by simp [decisions], by decide⟩⟩

end SourceCoverage
