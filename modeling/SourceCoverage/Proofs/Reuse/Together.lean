import SourceCoverage.Proofs.Reuse.History
import SourceCoverage.Proofs.Reuse.Writing

namespace SourceCoverage

open Journal Workspace

variable {call : Nat} {codec : Codec} {grammar : Grammar} {settings : Settings} {file : SourceFile} {j k l : Journal}

section Only

variable {allowed : Action → Prop} {p : Path}

theorem only_readSource (asks : allowed (.read p)) : (readSource p).outcome.Only allowed := by
  refine Script.only_attempt_bind (Script.only_lift (Script.only_perform asks)) fun answer => ?_
  cases answer with
  | error e => trivial
  | ok source =>
    dsimp only
    split <;> trivial

theorem only_load (asks : allowed (.read p)) : (Document.load codec p).outcome.Only allowed := by
  refine Script.only_attempt_bind (Script.only_lift (Script.only_perform asks)) fun answer => ?_
  cases answer with
  | error e => trivial
  | ok bytes =>
    dsimp only
    split <;> trivial

theorem only_reuseMiss? (asks : allowed (.isFile file.output)) (asks' : allowed (.read file.document)) (codec : Codec)
    (force : Bool) (sourceHash settingsHash : String) :
    (reuseMiss? codec force file sourceHash settingsHash).Only allowed := by
  unfold reuseMiss?
  split_ifs
  · trivial
  refine Script.only_bind (Script.only_perform asks) fun there => ?_
  cases there with
  | false => trivial
  | true =>
    refine Script.only_bind (only_load asks') fun loaded => ?_
    cases loaded <;> trivial

end Only

/-- How a pass that was started at a journal ends. -/
def PassEnds (call : Nat) (codec : Codec) (grammar : Grammar) (settings : Settings) (file : SourceFile) (j : Journal)
    (result : Except Failure Outcome) (k : Journal) : Prop :=
  match result with
  | .ok .reused => k = j
  | .ok (.instrumented markers ..) => ∃ source made,
      j.workspace.disk.read j.workspace.directory file.input = .ok source ∧ (∃ text, Utf8.decode source = .ok text) ∧
      Instrumentation.ofSource grammar settings file.input source = .ok made ∧
      markers = made.document.markers.length ∧
      WritesPair call file made.output (made.document.file codec settings.compressDocument) j (.ok ()) k
  | .error (.unwritable ..) => Spares file.written file.parents [j.target file.output, j.target file.document] j k ∧
      (Spares file.written file.parents [] j k ∨ k.workspace.fileAt (j.target file.document) = none)
  | .error _ => k = j

theorem passEnds_error (e : Failure) : PassEnds call codec grammar settings file j (.error e) j := by
  cases e with
  | unwritable p cause => exact ⟨.refl _ _ _ _, Or.inl (.refl _ _ _ _)⟩
  | _ => exact rfl

theorem leads_passFile (sound : j.workspace.Sound) (different : j.target file.output ≠ j.target file.document) :
    Leads call file.written (fun k => j.Together file → k.Together file)
      (passFile codec grammar settings file).outcome
      (PassEnds call codec grammar settings file j) j := by
  have still : ∀ k, k = j → j.Together file → k.Together file := by
    rintro k rfl
    exact id
  refine leads_attempt_bind (leads_mono (leads_asking (only_readSource trivial)) still ?_)
  rintro result k ⟨rfl, read⟩
  cases result with
  | error e => exact passEnds_error e
  | ok source =>
    obtain ⟨read, decoded⟩ := (ends_readSource read).2 source rfl
    refine leads_attempt_bind
      (leads_lift (leads_mono (leads_asking (only_reuseMiss? trivial trivial _ _ _ _)) still ?_))
    rintro miss k ⟨rfl, _⟩
    cases miss with
    | none => exact leads_pure rfl
    | some reason =>
      refine leads_attempt_bind (leads_pure ?_)
      cases instrumented : Instrumentation.ofSource grammar settings file.input source with
      | error e => exact passEnds_error e
      | ok made =>
        refine leads_attempt_bind (leads_mono (leads_writePair sound different _ _) (fun _ => id) ?_)
        intro result l ended
        cases result with
        | ok _ => exact leads_pure ⟨source, made, read, decoded, instrumented, rfl, ended⟩
        | error e =>
          obtain ⟨spares, ⟨p, cause, rfl⟩, outcome⟩ := ended
          exact ⟨spares, outcome⟩

/-- A logged run that has passed any journal ends at the last of them. -/
theorem Journal.Logged.last_mem {α : Type} {script : Script α} {visited : List Journal} {value : α}
    (logged : Logged call script j visited value l) : l = j ∨ l ∈ visited := by
  induction logged with
  | done => exact Or.inl rfl
  | act _ _ ih =>
    rcases ih with rfl | member
    · exact Or.inr List.mem_cons_self
    · exact Or.inr (List.mem_cons_of_mem _ member)

/-- Beside the pair of files, all is as in an earlier workspace, but for new directories that lead to the pair and
files that could not be removed. -/
def Journal.LeavesOthers (file : SourceFile) (w : Workspace) (k : Journal) : Prop :=
  ∀ location, location ≠ w.target file.output → location ≠ w.target file.document →
    k.entryAt location = w.disk.get? location ∨ w.disk.get? location = none ∧
      (k.entryAt location = some .directory ∧ (∃ p ∈ file.parents, location = w.target p) ∨ location ∈ k.refused)

theorem Journal.Spares.leavesOthers
    (spares : Spares file.written file.parents [j.target file.output, j.target file.document] j k) :
    k.LeavesOthers file j.workspace := by
  intro location output document
  have outside : location ∉ [j.target file.output, j.target file.document] := by
    simp only [List.mem_cons, List.not_mem_nil, or_false, not_or]
    exact ⟨output, document⟩
  rcases spares.entries location outside with same | ⟨free, made | ⟨stuck, _⟩⟩
  · exact Or.inl same
  · exact Or.inr ⟨free, Or.inl made⟩
  · exact Or.inr ⟨free, Or.inr stuck⟩

theorem Journal.Spares.pair_eq (spares : Spares file.written file.parents [] j k) :
    k.workspace.pair file = j.workspace.pair file := by
  have same {p : Path} (known : p ∈ file.written) :
      k.workspace.fileAt (k.target p) = j.workspace.fileAt (j.target p) := by
    rw [spares.target, spares.file_path known (by simp)]
  exact Prod.ext (same file.output_mem) (same file.document_mem)

/-- A directory stands where the document belongs. -/
def blockedStart : Workspace :=
  { callerStart with
    disk := ⟨(["out", "f_bda90eca.cid"], .directory) :: (["out"], .directory) :: callerStart.disk.entries⟩ }

/-- Somebody else's file stands where the text is to wait. -/
def occupiedStart : Workspace :=
  { callerStart with
    disk := ⟨(["out", "f_bda90eca.c.tmp.1.0.0"], .file []) :: (["out"], .directory) :: callerStart.disk.entries⟩ }

/-- Two spellings of one place. -/
def twiceFile : SourceFile := ⟨⟨"f.c"⟩, ⟨"out/f.c"⟩, ⟨"out/../out/f.c"⟩⟩

/-- The pass over a file whose document takes the place of its output. -/
def twiceEnd : Except Failure Outcome × Workspace :=
  callerStart.run (passFile .storing (.ofConcrete fun _ _ => .ok callerTree) {} twiceFile).outcome

end SourceCoverage
