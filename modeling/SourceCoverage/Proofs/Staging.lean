import SourceCoverage.Proofs.Workspace.Run
import SourceCoverage.Staging

namespace SourceCoverage

open SourceCoverage.Path

namespace Staging

open Workspace

/-- A tag is made of digits and dots. -/
theorem notMem_of_isTag {c : Char} (noDigit : c.isDigit = false) (noDot : c ≠ '.') {tag : String}
    (isTag : IsTag tag) :
    c ∉ tag.toList := by
  have digits (n : Nat) : c ∉ Nat.toDigits 10 n := by
    intro member
    rw [Nat.isDigit_of_mem_toDigits (by decide) (by decide) member] at noDigit
    cases noDigit
  obtain ⟨k, l, n, rfl⟩ := isTag
  have chars : s!"{k}.{l}.{n}".toList = Nat.toDigits 10 k ++
      '.' :: (Nat.toDigits 10 l ++ '.' :: Nat.toDigits 10 n) := by
    simp [toString, String.toList_append, Nat.repr]
  rw [chars]
  simp [digits, noDot]

/-- Joining a name that is not made of dots alone adds a step. -/
theorem steps_join {p : Path} {name : String} (noSlash : '/' ∉ name.toList) {c : Char} (inside : c ∈ name.toList)
    (noDot : c ≠ '.') :
    (p.join ⟨name⟩).steps = p.steps ++ [name] ∧ name ≠ ".." ∧ (p.join ⟨name⟩).isAbsolute = p.isAbsolute := by
  obtain ⟨steps, absolute⟩ := named_join (p := p) noSlash (isSilent_eq_false inside noDot)
  refine ⟨by simp [Path.steps, steps], ?_, absolute⟩
  rintro rfl
  simp at inside
  exact noDot inside

/-- How a temporary path relates to its target: its name stands in the place of the last name, or is put after the
steps of a path without a name. -/
inductive WaitsFor (p temporary : Path) (tag : String) : Prop
  | beside {front : List String} {own : String} : p.steps = front ++ [own] → own ≠ ".." →
      temporary.steps = front ++ [own ++ ".tmp." ++ tag] → WaitsFor p temporary tag
  | inside : (∀ front own, p.steps = front ++ [own] → own = "..") →
      temporary.steps = p.steps ++ ["file.tmp." ++ tag] → WaitsFor p temporary tag

theorem waitsFor_temporary (p : Path) {tag : String} (isTag : IsTag tag) :
    WaitsFor p (temporary p tag) tag ∧ (temporary p tag).isAbsolute = p.isAbsolute := by
  have mark : ∀ own : String, 't' ∈ (own ++ ".tmp." ++ tag).toList := by simp
  have noSlash : ∀ own : String, '/' ∉ own.toList → '/' ∉ (own ++ ".tmp." ++ tag).toList := by
    intro own noSlash
    simp only [String.toList_append, List.mem_append, not_or]
    exact ⟨⟨noSlash, by decide⟩, notMem_of_isTag (by decide) (by decide) isTag⟩
  rcases fileName?_cases p with ⟨front, own, fileName, steps, down⟩ | ⟨fileName, nameless⟩
  · obtain ⟨parent, parent?, above, absolute⟩ := parent?_eq_some steps
    have waits : temporary p tag = parent.join ⟨own ++ ".tmp." ++ tag⟩ := by
      simp [temporary, withFileName, fileName, parent?]
    obtain ⟨joined, _, absolute'⟩ := steps_join (p := parent) (noSlash own (slash_notMem_fileName fileName))
      (mark own)
      (by decide)
    rw [waits]
    have steps : p.steps = front.map String.ofList ++ [own] := by simp [Path.steps, steps]
    refine ⟨.beside steps down ?_, absolute'.trans absolute⟩
    rw [joined, Path.steps, above]
  · have waits : temporary p tag = p.join ⟨"file" ++ ".tmp." ++ tag⟩ := by simp [temporary, withFileName, fileName]
    obtain ⟨joined, _, absolute⟩ := steps_join (p := p) (noSlash "file" (by decide)) (mark "file") (by decide)
    rw [waits]
    refine ⟨.inside ?_ joined, absolute⟩
    intro front own steps
    rcases nameless with none | ⟨before, last⟩
    · simp [Path.steps, none] at steps
    · rw [Path.steps, last, List.map_append] at steps
      exact (List.cons.inj (List.append_inj' steps rfl).2).1.symm

/-- The directory of a target is the one in which a file waits for it. -/
theorem reaches_of_temporary {disk : Disk} {directory : Place} {p : Path} {tag : String} (isTag : IsTag tag)
    {front : List String} {own : String} (steps : p.steps = front ++ [own]) (down : own ≠ "..") {contents : Octets}
    {disk' : Disk} (written : disk.write directory (temporary p tag) contents = .ok disk') :
    ∃ place, Disk.Reaches disk' directory p front place := by
  obtain ⟨waits, absolute⟩ := waitsFor_temporary p isTag
  cases waits with
  | beside steps' _ waiting =>
    obtain ⟨rfl, _⟩ := List.append_inj' (steps.symm.trans steps') rfl
    obtain ⟨place, walked, lives⟩ := Disk.reaches_of_write waiting written
    rw [Disk.startOf, absolute] at walked
    exact ⟨place, walked, lives⟩
  | inside nameless _ => exact absurd (nameless front own steps) down

theorem tagged_ne_dots (own tag : String) : own ++ ".tmp." ++ tag ≠ ".." := by
  intro same
  have inside : 't' ∈ (own ++ ".tmp." ++ tag).toList := by simp
  rw [same] at inside
  exact absurd inside (by decide)

/-- A temporary file is in the directory of its target, under the name of the target with a tag. -/
theorem target_temporary (w : Workspace) {p : Path} {front : List String} {own : String}
    (steps : p.steps = front ++ [own]) (down : own ≠ "..") {tag : String} (isTag : IsTag tag) :
    ∃ above, w.target p = above ++ [own] ∧ w.target (temporary p tag) = above ++ [own ++ ".tmp." ++ tag] := by
  obtain ⟨waits, absolute⟩ := waitsFor_temporary p isTag
  refine ⟨Disk.follow (Disk.startOf w.directory p).location front, ?_, ?_⟩
  · rw [Workspace.target, Disk.target, steps, Disk.follow_name _ _ down]
  · cases waits with
    | beside steps' _ waiting =>
      obtain ⟨rfl, last⟩ := List.append_inj' (steps.symm.trans steps') rfl
      obtain rfl := (List.cons.inj last).1
      rw [Workspace.target, Disk.target, waiting, Disk.follow_name _ _ (tagged_ne_dots own tag), Disk.startOf,
        absolute, Disk.startOf]
    | inside nameless _ => exact absurd (nameless front own steps) down

theorem target_temporary_ne (w : Workspace) (p : Path) {tag : String} (isTag : IsTag tag) :
    w.target (temporary p tag) ≠ w.target p := by
  obtain ⟨waits, absolute⟩ := waitsFor_temporary p isTag
  cases waits with
  | beside steps down _ =>
    obtain ⟨above, target, target'⟩ := target_temporary w steps down isTag
    rw [target, target']
    intro same
    have lengths := congrArg String.length (List.cons.inj (List.append_inj' same rfl).2).1
    have five : ".tmp.".length = 5 := rfl
    simp only [String.length_append] at lengths
    omega
  | inside _ waiting =>
    have down : "file.tmp." ++ tag ≠ ".." := tagged_ne_dots "file" tag
    rw [Workspace.target, Disk.target, waiting, Disk.follow_name _ _ down, Disk.startOf, absolute]
    exact fun same => absurd (congrArg List.length same) (by simp [Workspace.target, Disk.target, Disk.startOf])

/-- An operation that is tried again ends as its last try ends, and all tries before that one have failed. -/
theorem runs_retrying {α : Type} {operation : Script (Except FileError α)} (holds : Workspace → Prop)
    (failing : ∀ u e v, holds u → Runs operation u (.error e) v → holds v) {again : Nat} {w after : Workspace}
    {result : Except FileError α} (start : holds w) (runs : Runs (retrying operation again) w result after) :
    ∃ between, holds between ∧ Runs operation between result after := by
  induction again generalizing w with
  | zero => exact ⟨w, start, runs⟩
  | succ again ih =>
    obtain ⟨outcome, between, first, second⟩ := runs_bind.mp runs
    cases outcome with
    | ok value =>
      obtain ⟨rfl, rfl⟩ := runs_pure.mp second
      exact ⟨w, start, first⟩
    | error e =>
      dsimp only at second
      split_ifs at second with missing
      · obtain ⟨rfl, rfl⟩ := runs_pure.mp second
        exact ⟨w, start, first⟩
      · exact ih (failing w e between start first) second

/-- The directories that are made for a file. -/
def parents (p : Path) : List Path := p.parent?.toList.flatMap fun parent => parent.ancestors (parent.text.length + 1)

/-- What is done to prepare directories. -/
def Prepares (directories : List Path) : Action → Prop
  | .makeDirectory p => p ∈ directories
  | .isDirectory _ | .isPresent _ => True
  | _ => False

section Only

open Script

variable {directories : List Path}

theorem only_unlessDirectory (p : Path) (e : FileError) :
    (unlessDirectory p e).outcome.Only (Prepares directories) := by
  refine only_attempt_bind (only_lift (only_perform trivial)) fun there => ?_
  cases there <;> trivial

theorem only_makeAll {paths : List Path} (inside : paths ⊆ directories) :
    (makeAll paths).outcome.Only (Prepares directories) := by
  induction paths with
  | nil => trivial
  | cons p parents ih =>
    obtain ⟨first, rest⟩ := List.cons_subset.mp inside
    have make : (makeDirectory p).outcome.Only (Prepares directories) := only_perform first
    unfold makeAll
    split_ifs
    · trivial
    · refine only_attempt_bind (only_lift make) fun made => ?_
      cases made with
      | ok _ => trivial
      | error e =>
        dsimp only
        split_ifs
        · exact only_unlessDirectory p e
        · refine only_attempt_bind (ih rest) fun _ => only_attempt_bind (only_lift make) fun made => ?_
          cases made with
          | ok _ => trivial
          | error e => exact only_unlessDirectory p e

theorem only_retrying {α : Type} {allowed : Action → Prop} {operation : Script (Except FileError α)}
    (only : operation.Only allowed) (again : Nat) : (retrying operation again).Only allowed := by
  induction again with
  | zero => exact only
  | succ again ih =>
    refine only_bind only fun result => ?_
    cases result with
    | ok value => trivial
    | error e =>
      dsimp only
      split_ifs
      · trivial
      · exact ih

theorem only_ensureParent (p : Path) : (ensureParent p).outcome.Only (Prepares (parents p)) := by
  unfold ensureParent parents
  cases p.parent? with
  | none => trivial
  | some parent =>
    dsimp only
    split_ifs
    · trivial
    · refine only_attempt_bind (only_lift (only_perform trivial)) fun there => ?_
      cases there
      · refine only_retrying (only_bind (only_makeAll (by simp)) fun made => ?_) retries
        cases made <;> trivial
      · trivial

end Only

/-- Preparing directories changes no file. -/
theorem changesOnly_of_prepares {α : Type} {directories : List Path} {script : Script α}
    (only : script.Only (Prepares directories)) {w after : Workspace} {value : α} (runs : Runs script w value after) :
    ChangesOnly [] w after := by
  induction runs with
  | done => exact .refl _ _
  | @act action _ _ _ _ _ _ happens _ ih =>
    obtain ⟨permitted, further⟩ := only
    refine ChangesOnly.trans ?_ (ih (further _))
    cases action with
    | makeDirectory p => exact happens_makeDirectory happens
    | isDirectory p | isPresent p =>
      rcases happens with honest | ⟨_, rfl⟩
      · cases honest
        exact .refl _ _
      · exact .refl _ _
    | _ => cases permitted

variable {w after : Workspace} {p : Path}

/-- What was staged is discarded after a failure, as far as that succeeds. -/
theorem ends_orDiscard {ε α : Type} {staged : Staged} {attempt : Attempt ε α} {result : Except ε α}
    (ends : Ends (orDiscard staged attempt) w result after) :
    ∃ between, Ends attempt w result between ∧
      ((∃ value, result = .ok value ∧ after = between) ∨
        ∃ e, result = .error e ∧ ChangesOnly [between.target staged.temporary] between after) := by
  rcases ends_bind.mp ends with ⟨e, _, failed⟩ | ⟨outcome, between, tried, rest⟩
  · obtain ⟨_, failure, _⟩ := ends_tried.mp failed
    cases failure
  · obtain ⟨_, same, ended⟩ := ends_tried.mp tried
    cases same
    refine ⟨between, ?_⟩
    cases outcome with
    | ok value =>
      obtain ⟨rfl, rfl⟩ := ends_pure.mp rest
      exact ⟨ended, Or.inl ⟨value, rfl, rfl⟩⟩
    | error e =>
      rcases ends_bind.mp rest with ⟨_, _, failed⟩ | ⟨_, later, discarded, thrown⟩
      · obtain ⟨_, failure, _⟩ := ends_lift.mp failed
        cases failure
      · obtain ⟨rfl, rfl⟩ := ends_throw.mp thrown
        obtain ⟨_, _, runs⟩ := ends_lift.mp discarded
        obtain ⟨answer, _, removed, done⟩ := runs_bind.mp runs
        obtain ⟨_, rfl⟩ := runs_pure.mp done
        refine ⟨ended, Or.inr ⟨e, rfl, ?_⟩⟩
        rcases happens_remove (runs_perform.mp removed) with ⟨_, _, rfl, _⟩ | ⟨_, directory, files⟩
        · exact .refl _ _
        · exact ⟨directory, fun location outside => by rw [files, if_neg (by simpa using outside)]⟩

/-- Each try of a write changes the file it is to write and no other. -/
theorem ends_persist_write {contents : Octets} {result : Except FileError Unit}
    (ends : Ends (Script.persist (Script.perform (.write p contents))) w result after) :
    ChangesOnly [w.target p] w after ∧
      (result = .ok () → ∃ disk : Disk, disk.write w.directory p contents = .ok after.disk) := by
  have writes : ∀ {u v : Workspace} {answer : Except FileError Unit}, ChangesOnly [w.target p] w u →
      Runs (Script.perform (.write p contents)) u answer v → ChangesOnly [w.target p] w v := by
    intro u v answer changes runs
    refine changes.trans ?_
    rw [← changes.target]
    exact (happens_write (runs_perform.mp runs)).1
  obtain ⟨last, changes, runs⟩ := runs_retrying (ChangesOnly [w.target p] w)
    (fun u e v changes runs => writes changes runs) (.refl _ _) ends
  refine ⟨writes changes runs, fun ok => ?_⟩
  obtain ⟨disk, done, rfl⟩ := (happens_write (runs_perform.mp runs)).2 ok
  rw [changes.directory] at done
  exact ⟨last.disk, done⟩

/-- Staging changes a temporary file and no other; where it succeeds, the contents wait there. -/
theorem ends_stage {contents : Octets} {result : Except FileError Staged}
    (ends : Ends (stage p contents) w result after) :
    ∃ tag, IsTag tag ∧ ChangesOnly [w.target (temporary p tag)] w after ∧ ∀ staged, result = .ok staged →
      staged = ⟨temporary p tag, p⟩ ∧
        ∃ disk : Disk, disk.write w.directory (temporary p tag) contents = .ok after.disk := by
  rcases ends_bind.mp ends with ⟨e, rfl, failed⟩ | ⟨_, made, ensured, rest⟩
  · have quiet := changesOnly_of_prepares (only_ensureParent p) failed
    exact ⟨"0.0.0", ⟨0, 0, 0, rfl⟩, quiet.weaken (List.nil_subset _), fun staged ok => nomatch ok⟩
  rcases ends_bind.mp rest with ⟨_, _, failed⟩ | ⟨tag, tagged, drawn, rest⟩
  · obtain ⟨_, failure, _⟩ := ends_lift.mp failed
    cases failure
  obtain ⟨_, same, runs⟩ := ends_lift.mp drawn
  cases same
  obtain ⟨isTag, changes⟩ := happens_freshTag (runs_perform.mp runs)
  have quiet := (changesOnly_of_prepares (only_ensureParent p) ensured).trans changes
  refine ⟨tag, isTag, ?_⟩
  rw [← quiet.target, ← quiet.directory]
  have before := quiet.weaken (List.nil_subset [tagged.target (temporary p tag)])
  rcases ends_bind.mp rest with ⟨e, rfl, failed⟩ | ⟨_, stored, done, rest⟩
  · obtain ⟨between, persisted, ⟨_, ok, _⟩ | ⟨_, _, discarded⟩⟩ := ends_orDiscard failed
    · cases ok
    · have written := (ends_persist_write persisted).1
      rw [written.target] at discarded
      exact ⟨before.trans (written.trans discarded), fun staged ok => nomatch ok⟩
  · obtain ⟨rfl, rfl⟩ := ends_pure.mp rest
    obtain ⟨between, persisted, ⟨_, _, rfl⟩ | ⟨_, failure, _⟩⟩ := ends_orDiscard done
    · obtain ⟨written, ok⟩ := ends_persist_write persisted
      refine ⟨before.trans written, fun staged same => ?_⟩
      cases same
      exact ⟨rfl, ok rfl⟩
    · cases failure

/-- Committing moves the temporary file to its target, or fails and leaves the target as it was. -/
theorem ends_commit {staged : Staged} {result : Except FileError Path} (ends : Ends (commit staged) w result after) :
    (∃ e, result = .error e ∧ ChangesOnly [w.target staged.temporary] w after) ∨
      (∃ q, result = .ok q) ∧ after.directory = w.directory ∧
        ∃ contents, w.fileAt (w.target staged.temporary) = some contents ∧ ∀ location, after.fileAt location =
          if location = w.target staged.target then some contents
          else if location = w.target staged.temporary then none else w.fileAt location := by
  have renamed : ∀ {answer between},
      Ends (Script.persist (Script.perform (.rename staged.temporary staged.target))) w answer between →
        Happens (.rename staged.temporary staged.target) w answer between := by
    intro answer between persisted
    obtain ⟨last, rfl, runs⟩ := runs_retrying (· = w) (fun u e v same runs => by
      rcases happens_rename (runs_perform.mp runs) with ⟨_, _, rfl⟩ | ⟨ok, _⟩
      · exact same
      · cases ok) rfl persisted
    exact runs_perform.mp runs
  rcases ends_bind.mp ends with ⟨e, rfl, failed⟩ | ⟨_, moved, done, rest⟩
  · obtain ⟨between, persisted, ⟨_, ok, _⟩ | ⟨_, _, discarded⟩⟩ := ends_orDiscard failed
    · cases ok
    · rcases happens_rename (renamed persisted) with ⟨_, _, rfl⟩ | ⟨ok, _⟩
      · exact Or.inl ⟨e, rfl, discarded⟩
      · cases ok
  · obtain ⟨rfl, rfl⟩ := ends_pure.mp rest
    obtain ⟨between, persisted, ⟨_, _, rfl⟩ | ⟨_, failure, _⟩⟩ := ends_orDiscard done
    · rcases happens_rename (renamed persisted) with ⟨_, failure, _⟩ | ⟨_, directory, files⟩
      · cases failure
      · exact Or.inr ⟨⟨_, rfl⟩, directory, files⟩
    · cases failure

/-- A file whose directory is there has gone once it is removed if present. -/
theorem ends_removeIfPresent {result : Except FileError Unit} (ends : Ends (removeIfPresent p) w result after) :
    ChangesOnly [w.target p] w after ∧ ((∃ e, result = .error e ∧ after = w) ∨ result = .ok () ∧
      ∀ {front name place}, p.steps = front ++ [name] → name ≠ ".." → Disk.Reaches w.disk w.directory p front place →
        after.fileAt (w.target p) = none) := by
  rcases ends_bind.mp ends with ⟨_, _, failed⟩ | ⟨answer, between, tried, rest⟩
  · obtain ⟨_, failure, _⟩ := ends_tried.mp failed
    cases failure
  obtain ⟨_, same, runs⟩ := ends_tried.mp tried
  cases same
  rcases happens_remove (runs_perform.mp runs) with ⟨e, rfl, rfl, refused⟩ | ⟨rfl, directory, files⟩
  · dsimp only at rest
    split_ifs at rest with missing
    · obtain ⟨rfl, rfl⟩ := ends_pure.mp rest
      refine ⟨.refl _ _, Or.inr ⟨rfl, fun steps down reaches => ?_⟩⟩
      exact Disk.file?_of_remove_notFound steps down reaches (refused (beq_iff_eq.mp missing)) (beq_iff_eq.mp missing)
    · obtain ⟨rfl, rfl⟩ := ends_throw.mp rest
      exact ⟨.refl _ _, Or.inl ⟨e, rfl, rfl⟩⟩
  · obtain ⟨rfl, rfl⟩ := ends_pure.mp rest
    refine ⟨⟨directory, fun location outside => ?_⟩, Or.inr ⟨rfl, fun _ _ _ => ?_⟩⟩
    · rw [files, if_neg (by simpa using outside)]
    · rw [files, if_pos rfl]

end Staging

end SourceCoverage
