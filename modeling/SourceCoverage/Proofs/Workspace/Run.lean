import SourceCoverage.Proofs.Workspace.Disk
import SourceCoverage.Workspace

namespace SourceCoverage

namespace Script

/-- Whatever the answers, only allowed actions are performed. -/
def Only {α : Type} (allowed : Action → Prop) : Script α → Prop
  | done _ => True
  | act action next => allowed action ∧ ∀ answer, (next answer).Only allowed

section Only

variable {allowed : Action → Prop} {α β ε : Type}

theorem only_perform {action : Action} (permitted : allowed action) : (perform action).Only allowed :=
  ⟨permitted, fun _ => trivial⟩

theorem only_bind {script : Script α} {next : α → Script β} (first : script.Only allowed)
    (second : ∀ value, (next value).Only allowed) : (script >>= next).Only allowed := by
  change (script.bind next).Only allowed
  induction script with
  | done value => exact second value
  | act action further ih => exact ⟨first.1, fun answer => ih answer (first.2 answer)⟩

theorem only_attempt_bind {attempt : Attempt ε α} {next : α → Attempt ε β} (first : attempt.outcome.Only allowed)
    (second : ∀ value, (next value).outcome.Only allowed) : (attempt >>= next).outcome.Only allowed := by
  refine only_bind first fun result => ?_
  cases result with
  | ok value => exact second value
  | error e => trivial

theorem only_lift {script : Script α} (only : script.Only allowed) :
    (liftM script : Attempt ε α).outcome.Only allowed := only_bind only fun _ => trivial

end Only

end Script

namespace Workspace

/-- The contents of the file at a location. -/
def fileAt (w : Workspace) (location : DiskLocation) : Option Octets := w.disk.file? location

/-- The location to which a path leads. -/
def target (w : Workspace) (p : Path) : DiskLocation := Disk.target w.directory p

/-- Three numbers, joined by dots. -/
def IsTag (tag : String) : Prop := ∃ a b c : Nat, tag = s!"{a}.{b}.{c}"

/-- An operation failed, but not for want of a file. -/
def IsFault {α : Type} (answer : Except FileError α) : Prop := ∃ e, answer = .error e ∧ e.kind ≠ .notFound

/-- What may become of an action that is disturbed. A question is then answered in the negative, and a tag may be any
three numbers. -/
def Disturbed : (action : Action) → Workspace → action.Answer → Workspace → Prop
  | .read _, w, answer, after => IsFault answer ∧ after = w
  | .write p contents, w, answer, after => IsFault answer ∧ (after = w ∨ ∃ part disk, part <+: contents ∧
      w.disk.write w.directory p part = .ok disk ∧ after = { w with disk })
  | .rename _ _, w, answer, after => IsFault answer ∧ after = w
  | .remove _, w, answer, after => IsFault answer ∧ after = w
  | .makeDirectory _, w, answer, after => IsFault answer ∧ after = w
  | .isFile _, w, answer, after => answer = false ∧ after = w
  | .isDirectory _, w, answer, after => answer = false ∧ after = w
  | .isPresent _, w, answer, after => answer = false ∧ after = w
  | .workingDirectory, w, answer, after => IsFault answer ∧ after = w
  | .freshTag, w, answer, after => IsTag answer ∧ after = w
  | .print _, _, _, _ => False
  | .start _ _, w, answer, after => IsFault answer ∧ after = w

/-- What may happen when an action is performed. -/
def Happens (action : Action) (w : Workspace) (answer : action.Answer) (after : Workspace) : Prop :=
  (answer, after) = perform action w ∨ Disturbed action w answer after

/-- A script may end with a value in a workspace. -/
inductive Runs {α : Type} : Script α → Workspace → α → Workspace → Prop
  | done (value : α) (w : Workspace) : Runs (.done value) w value w
  | act {action : Action} {next : action.Answer → Script α} {w between after : Workspace} {answer : action.Answer}
      {value : α} : Happens action w answer between → Runs (next answer) between value after →
      Runs (.act action next) w value after

/-- Where nothing is disturbed, a script runs as it is evaluated. -/
theorem runs_run {α : Type} (script : Script α) (w : Workspace) :
    Runs script w (w.run script).1 (w.run script).2 := by
  unfold run
  induction script generalizing w with
  | done value => exact .done value w
  | act action next ih => exact .act (Or.inl rfl) (ih (perform action w).1 (perform action w).2)

variable {α β ε δ : Type} {w after : Workspace}

theorem run_bind (script : Script α) (next : α → Script β) (w : Workspace) :
    w.run (script >>= next) = (w.run script).2.run (next (w.run script).1) := by
  change Script.run perform (script.bind next) w = _
  unfold run
  induction script generalizing w with
  | done value => rfl
  | act action further ih => exact ih _ _

/-- After a success, an attempt goes on. -/
theorem run_attempt_bind {attempt : Attempt ε α} {next : α → Attempt ε β} {value : α}
    (ok : w.run attempt.outcome = (.ok value, after)) :
    w.run (attempt >>= next).outcome = after.run (next value).outcome := by
  unfold Attempt.outcome at ok ⊢
  rw [ExceptT.run_bind, run_bind, ok]

theorem run_lift (script : Script α) (w : Workspace) :
    w.run (liftM script : Attempt ε α).outcome = (.ok (w.run script).1, (w.run script).2) :=
  run_bind script _ w

theorem runs_pure {value result : α} : Runs (pure value) w result after ↔ result = value ∧ after = w := by
  constructor
  · intro runs
    cases runs
    exact ⟨rfl, rfl⟩
  · rintro ⟨rfl, rfl⟩
    exact .done _ _

theorem runs_perform {action : Action} {answer : action.Answer} :
    Runs (Script.perform action) w answer after ↔ Happens action w answer after := by
  constructor
  · intro runs
    cases runs with
    | act happens rest =>
      cases rest
      exact happens
  · intro happens
    exact .act happens (.done _ _)

theorem runs_bind {script : Script α} {next : α → Script β} {result : β} :
    Runs (script >>= next) w result after ↔
      ∃ value between, Runs script w value between ∧ Runs (next value) between result after := by
  constructor
  · intro runs
    change Runs (script.bind next) w result after at runs
    induction script generalizing w with
    | done value => exact ⟨value, w, .done value w, runs⟩
    | act action further ih =>
      cases runs with
      | act happens rest =>
        obtain ⟨value, between, first, second⟩ := ih _ rest
        exact ⟨value, between, .act happens first, second⟩
  · rintro ⟨value, between, first, second⟩
    change Runs (script.bind next) w result after
    induction first with
    | done value w => exact second
    | act happens rest ih => exact .act happens (ih second)

theorem updated_directory (w : Workspace) (outcome : Except FileError Disk) :
    (w.updated outcome).2.directory = w.directory := by
  cases outcome <;> rfl

theorem happens_directory {action : Action} {answer : action.Answer} (happens : Happens action w answer after) :
    after.directory = w.directory := by
  rcases happens with honest | disturbed
  · rw [show after = (perform action w).2 from congrArg Prod.snd honest]
    cases action with
    | write | rename | remove | makeDirectory => exact updated_directory w _
    | _ => rfl
  · cases action with
    | print text => exact disturbed.elim
    | write p contents =>
      rcases disturbed.2 with rfl | ⟨_, _, _, _, rfl⟩
      · rfl
      · rfl
    | _ => rw [disturbed.2]

/-- No script leaves its working directory. -/
theorem runs_directory {script : Script α} {value : α} (runs : Runs script w value after) :
    after.directory = w.directory := by
  induction runs with
  | done => rfl
  | act happens _ ih => exact ih.trans (happens_directory happens)

/-- The ends of an attempt are the ends of the script behind it. -/
def Ends (attempt : Attempt ε α) (w : Workspace) (result : Except ε α) (after : Workspace) : Prop :=
  Runs attempt.outcome w result after

theorem ends_pure {value : α} {result : Except ε α} :
    Ends (pure value) w result after ↔ result = .ok value ∧ after = w := runs_pure

theorem ends_throw {e : ε} {result : Except ε α} :
    Ends (throw e) w result after ↔ result = .error e ∧ after = w := runs_pure

theorem ends_ofExcept {given result : Except ε α} :
    Ends (Attempt.ofExcept given) w result after ↔ result = given ∧ after = w := runs_pure

theorem ends_bind {attempt : Attempt ε α} {next : α → Attempt ε β} {result : Except ε β} :
    Ends (attempt >>= next) w result after ↔
      (∃ e, result = .error e ∧ Ends attempt w (.error e) after) ∨
        ∃ value between, Ends attempt w (.ok value) between ∧ Ends (next value) between result after := by
  unfold Ends Attempt.outcome
  rw [ExceptT.run_bind, runs_bind]
  constructor
  · rintro ⟨outcome, between, first, second⟩
    cases outcome with
    | error e =>
      obtain ⟨rfl, rfl⟩ := runs_pure.mp second
      exact Or.inl ⟨e, rfl, first⟩
    | ok value => exact Or.inr ⟨value, between, first, second⟩
  · rintro (⟨e, rfl, first⟩ | ⟨value, between, first, second⟩)
    · exact ⟨.error e, after, first, runs_pure.mpr ⟨rfl, rfl⟩⟩
    · exact ⟨.ok value, between, first, second⟩

theorem ends_lift {script : Script α} {result : Except ε α} :
    Ends (liftM script : Attempt ε α) w result after ↔ ∃ value, result = .ok value ∧ Runs script w value after := by
  change Runs (Except.ok <$> script) w result after ↔ _
  have mapped : (Except.ok <$> script : Script (Except ε α)) = script >>= fun value => pure (.ok value) := rfl
  rw [mapped, runs_bind]
  constructor
  · rintro ⟨value, between, first, second⟩
    obtain ⟨rfl, rfl⟩ := runs_pure.mp second
    exact ⟨value, rfl, first⟩
  · rintro ⟨value, rfl, first⟩
    exact ⟨value, after, first, runs_pure.mpr ⟨rfl, rfl⟩⟩

theorem ends_tried {attempt : Attempt ε α} {result : Except δ (Except ε α)} :
    Ends (attempt.tried : Attempt δ _) w result after ↔ ∃ outcome, result = .ok outcome ∧
      Ends attempt w outcome after :=
  ends_lift

theorem ends_mapError {f : ε → δ} {attempt : Attempt ε α} {result : Except δ α} :
    Ends (attempt.mapError f) w result after ↔ ∃ outcome, result = outcome.mapError f ∧
      Ends attempt w outcome after := by
  have mapped : (attempt.mapError f).outcome = attempt.outcome >>= fun outcome => pure (outcome.mapError f) := rfl
  unfold Ends
  rw [mapped, runs_bind]
  constructor
  · rintro ⟨outcome, between, first, second⟩
    obtain ⟨rfl, rfl⟩ := runs_pure.mp second
    exact ⟨outcome, rfl, first⟩
  · rintro ⟨outcome, rfl, first⟩
    exact ⟨outcome, after, first, runs_pure.mpr ⟨rfl, rfl⟩⟩

theorem ends_of_mapError_ok {f : ε → δ} {attempt : Attempt ε α} {value : α}
    (ends : Ends (attempt.mapError f) w (.ok value) after) : Ends attempt w (.ok value) after := by
  obtain ⟨outcome, same, ends⟩ := ends_mapError.mp ends
  cases outcome with
  | error e => cases same
  | ok found =>
    cases same
    exact ends

theorem ends_of_mapError_error {f : ε → δ} {attempt : Attempt ε α} {e : δ}
    (ends : Ends (attempt.mapError f) w (.error e) after) : ∃ e, Ends attempt w (.error e) after := by
  obtain ⟨outcome, same, ends⟩ := ends_mapError.mp ends
  cases outcome with
  | error e => exact ⟨e, ends⟩
  | ok found => cases same

/-- Only files at the given locations have changed. -/
structure ChangesOnly (touched : List DiskLocation) (w after : Workspace) : Prop where
  directory : after.directory = w.directory
  files : ∀ location, location ∉ touched → after.fileAt location = w.fileAt location

theorem ChangesOnly.refl (touched : List DiskLocation) (w : Workspace) : ChangesOnly touched w w :=
  ⟨rfl, fun _ _ => rfl⟩

theorem ChangesOnly.trans {touched : List DiskLocation} {between : Workspace} (first : ChangesOnly touched w between)
    (second : ChangesOnly touched between after) : ChangesOnly touched w after :=
  ⟨second.directory.trans first.directory,
    fun location outside => (second.files location outside).trans (first.files location outside)⟩

theorem ChangesOnly.weaken {touched more : List DiskLocation} (changes : ChangesOnly touched w after)
    (inside : touched ⊆ more) : ChangesOnly more w after :=
  ⟨changes.directory, fun location outside => changes.files location fun touches => outside (inside touches)⟩

theorem ChangesOnly.target {touched : List DiskLocation} (changes : ChangesOnly touched w after) (p : Path) :
    after.target p = w.target p := by
  rw [Workspace.target, changes.directory, Workspace.target]

/-- A reading that succeeds has read what is there. -/
theorem happens_read {p : Path} {answer : Except FileError Octets} (happens : Happens (.read p) w answer after) :
    after = w ∧ ∀ contents, answer = .ok contents → w.disk.read w.directory p = .ok contents := by
  rcases happens with honest | ⟨⟨e, rfl, _⟩, rfl⟩
  · cases honest
    exact ⟨rfl, fun _ ok => ok⟩
  · exact ⟨rfl, fun _ ok => nomatch ok⟩

theorem happens_isFile {p : Path} {answer : Bool} (happens : Happens (.isFile p) w answer after) :
    after = w ∧ (answer = true → ∃ contents, w.disk.read w.directory p = .ok contents) := by
  rcases happens with honest | ⟨rfl, rfl⟩
  · cases honest
    refine ⟨rfl, fun yes => ?_⟩
    unfold isFile stat at yes
    split at yes
    · exact ⟨_, Disk.read_eq_ok_iff.mpr ‹_›⟩
    · cases yes
  · exact ⟨rfl, fun yes => nomatch yes⟩

theorem happens_freshTag {tag : String} (happens : Happens .freshTag w tag after) :
    IsTag tag ∧ ChangesOnly [] w after := by
  rcases happens with honest | ⟨tag, rfl⟩
  · cases honest
    exact ⟨⟨1, 0, w.tags, rfl⟩, rfl, fun _ _ => rfl⟩
  · exact ⟨tag, .refl _ _⟩

theorem happens_makeDirectory {p : Path} {answer : Except FileError Unit}
    (happens : Happens (.makeDirectory p) w answer after) : ChangesOnly [] w after := by
  rcases happens with honest | ⟨_, rfl⟩
  · cases made : w.disk.makeDirectory w.directory p with
    | error e =>
      simp only [perform, updated, made] at honest
      cases honest
      exact .refl _ _
    | ok disk =>
      simp only [perform, updated, made] at honest
      cases honest
      exact ⟨rfl, fun location _ => Disk.file?_makeDirectory made location⟩
  · exact .refl _ _

/-- A write changes the file it is to write and no other, also if it fails. -/
theorem happens_write {p : Path} {contents : Octets} {answer : Except FileError Unit}
    (happens : Happens (.write p contents) w answer after) : ChangesOnly [w.target p] w after ∧
      (answer = .ok () → ∃ disk, w.disk.write w.directory p contents = .ok disk ∧ after = { w with disk }) := by
  have written : ∀ {part disk}, w.disk.write w.directory p part = .ok disk →
      ChangesOnly [w.target p] w { w with disk } := by
    intro part disk done
    refine ⟨rfl, fun location outside => ?_⟩
    exact (Disk.file?_write done location).trans (if_neg fun same => outside (List.mem_singleton.mpr same))
  rcases happens with honest | ⟨⟨e, rfl, _⟩, rfl | ⟨part, disk, _, done, rfl⟩⟩
  · cases done : w.disk.write w.directory p contents with
    | error e =>
      simp only [perform, updated, done] at honest
      cases honest
      exact ⟨.refl _ _, fun ok => nomatch ok⟩
    | ok disk =>
      simp only [perform, updated, done] at honest
      cases honest
      exact ⟨written done, fun _ => ⟨disk, rfl, rfl⟩⟩
  · exact ⟨.refl _ _, fun ok => nomatch ok⟩
  · exact ⟨written done, fun ok => nomatch ok⟩

theorem happens_rename {p q : Path} {answer : Except FileError Unit}
    (happens : Happens (.rename p q) w answer after) :
    (∃ e, answer = .error e ∧ after = w) ∨ answer = .ok () ∧ after.directory = w.directory ∧
      ∃ contents, w.fileAt (w.target p) = some contents ∧ ∀ location, after.fileAt location =
        if location = w.target q then some contents
        else if location = w.target p then none else w.fileAt location := by
  rcases happens with honest | ⟨⟨e, failed, _⟩, rfl⟩
  · cases moved : w.disk.rename w.directory p q with
    | error e =>
      simp only [perform, updated, moved] at honest
      cases honest
      exact Or.inl ⟨e, rfl, rfl⟩
    | ok disk =>
      simp only [perform, updated, moved] at honest
      cases honest
      exact Or.inr ⟨rfl, rfl, Disk.file?_rename moved⟩
  · exact Or.inl ⟨e, failed, rfl⟩

/-- A removal that fails for want of a file is one that the disk refused. -/
theorem happens_remove {p : Path} {answer : Except FileError Unit} (happens : Happens (.remove p) w answer after) :
    (∃ e, answer = .error e ∧ after = w ∧ (e.kind = .notFound → w.disk.remove w.directory p = .error e)) ∨
      answer = .ok () ∧ after.directory = w.directory ∧
        ∀ location, after.fileAt location = if location = w.target p then none else w.fileAt location := by
  rcases happens with honest | ⟨⟨e, failed, kind⟩, rfl⟩
  · cases removed : w.disk.remove w.directory p with
    | error e =>
      simp only [perform, updated, removed] at honest
      cases honest
      exact Or.inl ⟨e, rfl, rfl, fun _ => rfl⟩
    | ok disk =>
      simp only [perform, updated, removed] at honest
      cases honest
      exact Or.inr ⟨rfl, rfl, Disk.file?_remove removed⟩
  · exact Or.inl ⟨e, failed, rfl, fun missing => absurd missing kind⟩

end Workspace

end SourceCoverage
