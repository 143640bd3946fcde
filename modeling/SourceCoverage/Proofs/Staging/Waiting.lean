import SourceCoverage.Proofs.Staging
import SourceCoverage.Proofs.Workspace.Journal

namespace SourceCoverage.Staging

open Journal Workspace

variable {call : Nat} {paths : List Path} {j k : Journal} {inv : Journal → Prop}

theorem leads_ensureParent (p : Path) : Leads call paths (Spares paths (parents p) [] j) (ensureParent p).outcome
    (fun _ => Spares paths (parents p) [] j) j := by
  refine leads_only (only_ensureParent p) ?_ ?_ ?_
  · intro action prepares starts
    cases action with
    | start => exact prepares
    | _ => exact starts
  · intro action prepares
    cases action with
    | makeDirectory q => exact List.cons_subset.mpr ⟨prepares, List.nil_subset _⟩
    | isDirectory _ | isPresent _ => exact List.nil_subset _
    | _ => cases prepares
  · intro action prepares
    cases action with
    | makeDirectory _ | isDirectory _ | isPresent _ => exact List.nil_subset _
    | _ => cases prepares

/-- After a failure, what was staged is removed. -/
theorem leads_orDiscard {ε α : Type} {staged : Staged} {attempt : Attempt ε α} {post : Except ε α → Journal → Prop}
    (leads : Leads call paths inv attempt.outcome (fun result k => match result with
      | .ok value => post (.ok value) k
      | .error e => ∀ l, Spares paths [] [k.target staged.temporary] k l → Gone (k.target staged.temporary) l →
          inv l ∧ post (.error e) l) j) :
    Leads call paths inv (orDiscard staged attempt).outcome post j := by
  refine leads_attempt_bind (leads_tried (leads_mono leads (fun _ => id) ?_))
  intro result k holds
  cases result with
  | ok value => exact leads_pure holds
  | error e =>
    refine leads_attempt_bind (leads_lift (leads_bind (leads_perform ?_)))
    intro answer l steps
    obtain ⟨spares, gone⟩ := gone_of_remove steps
    obtain ⟨along, ended⟩ := holds l spares gone
    exact ⟨along, leads_pure (leads_pure ended)⟩

/-- An operation that is tried again starts each time where it failed. -/
theorem leads_retrying {α : Type} {operation : Script (Except FileError α)} (holds : Journal → Prop)
    {post : Except FileError α → Journal → Prop}
    (once : ∀ k, holds k → Leads call paths inv operation (fun result l => match result with
      | .ok value => post (.ok value) l
      | .error e => holds l ∧ post (.error e) l) k)
    (again : Nat) (start : holds j) : Leads call paths inv (retrying operation again) post j := by
  induction again generalizing j with
  | zero =>
    refine leads_mono (once j start) (fun _ => id) ?_
    intro result k ended
    cases result with
    | ok value => exact ended
    | error e => exact ended.2
  | succ again ih =>
    refine leads_bind (leads_mono (once j start) (fun _ => id) ?_)
    intro result k ended
    cases result with
    | ok value => exact leads_pure ended
    | error e =>
      dsimp only
      split_ifs
      · exact leads_pure ended.2
      · exact ih ended.1

theorem leads_persist_write (p : Path) (contents : Octets) : Leads call paths (Spares paths [] [j.target p] j)
    (Script.persist (Script.perform (.write p contents))).outcome (fun result k => Spares paths [] [j.target p] j k ∧
      (result = .ok () → k.entryAt (j.target p) = some (.file contents) ∧ k.author (j.target p) = call ∧
        ∃ disk : Disk, disk.write j.workspace.directory p contents = .ok k.workspace.disk)) j := by
  refine leads_retrying (Spares paths [] [j.target p] j) ?_ retries (.refl _ _ _ _)
  intro k spares
  refine leads_perform fun answer l steps => ?_
  obtain ⟨step, author, written⟩ := steps_write steps
  rw [spares.target] at step author written
  have spares' := spares.trans step
  refine ⟨spares', ?_⟩
  cases answer with
  | error e => exact ⟨spares', spares', fun ok => nomatch ok⟩
  | ok _ =>
    obtain ⟨done, entry⟩ := written rfl
    rw [spares.directory] at done
    exact ⟨spares', fun _ => ⟨entry, author, k.workspace.disk, done⟩⟩

/-- Only places beside the paths may have changed, and places of parents. -/
def Beside (paths parents : List Path) (j k : Journal) : Prop :=
  ∃ touched, (∀ location ∈ touched, ∀ p ∈ paths, location ≠ j.target p) ∧ Spares paths parents touched j k

/-- Contents of a call wait for a path under a tag. -/
structure Waits (call : Nat) (paths : List Path) (p : Path) (tag : String) (contents : Octets) (j k : Journal) :
    Prop where
  isTag : IsTag tag
  free : j.entryAt (j.target (temporary p tag)) = none
  apart : ∀ q ∈ paths, j.target (temporary p tag) ≠ j.target q
  spares : Spares paths (parents p) [j.target (temporary p tag)] j k
  entry : k.entryAt (j.target (temporary p tag)) = some (.file contents)
  author : k.author (j.target (temporary p tag)) = call
  written : ∃ disk : Disk, disk.write j.workspace.directory (temporary p tag) contents = .ok k.workspace.disk

/-- Contents are written to wait, or nothing is left of them. -/
theorem leads_write_staged (staged : Staged) (contents : Octets) :
    Leads call paths (Spares paths [] [j.target staged.temporary] j)
      (orDiscard staged (Script.persist (Script.perform (.write staged.temporary contents)))).outcome
      (fun result k => Spares paths [] [j.target staged.temporary] j k ∧ match result with
        | .ok _ => k.entryAt (j.target staged.temporary) = some (.file contents) ∧
            k.author (j.target staged.temporary) = call ∧
            ∃ disk : Disk, disk.write j.workspace.directory staged.temporary contents = .ok k.workspace.disk
        | .error _ => Gone (j.target staged.temporary) k) j := by
  refine leads_orDiscard (leads_mono (leads_persist_write staged.temporary contents) (fun _ => id) ?_)
  rintro result k ⟨writing, done⟩
  cases result with
  | ok _ => exact ⟨writing, done rfl⟩
  | error e =>
    intro l removing gone
    rw [writing.target] at removing gone
    exact ⟨writing.trans removing, writing.trans removing, gone⟩

theorem leads_stage {p : Path} (known : p ∈ paths) (contents : Octets) :
    Leads call paths (Beside paths (parents p) j) (stage p contents).outcome (fun result k => match result with
      | .ok staged => ∃ tag, staged = ⟨temporary p tag, p⟩ ∧ Waits call paths p tag contents j k
      | .error _ => Spares paths (parents p) [] j k) j := by
  have nowhere {k : Journal} (spares : Spares paths (parents p) [] j k) : Beside paths (parents p) j k :=
    ⟨[], by simp, spares⟩
  refine leads_attempt_bind (leads_mono (leads_ensureParent p) (fun _ => nowhere) ?_)
  intro result made spares
  cases result with
  | error e => exact spares
  | ok _ =>
    refine leads_attempt_bind (leads_lift (leads_freshTag fun tag drawn isTag fresh step => ?_))
    have spares' : Spares paths (parents p) [] j drawn :=
      spares.trans (step.weaken (List.nil_subset _) (List.Subset.refl _))
    obtain ⟨free, apart⟩ := fresh p known
    change made.entryAt (made.target (temporary p tag)) = none at free
    change ∀ q ∈ paths, made.target (temporary p tag) ≠ made.target q at apart
    simp only [spares.target] at free apart
    have free := spares.entry_eq_none (by simp) free
    have all {m : Journal} (writing : Spares paths [] [j.target (temporary p tag)] drawn m) :
        Spares paths (parents p) [j.target (temporary p tag)] j m :=
      (spares'.widen (List.nil_subset _)).trans
        (writing.weaken (List.nil_subset _) (List.Subset.refl _))
    have write : Leads call paths _ _ _ drawn := leads_write_staged ⟨temporary p tag, p⟩ contents
    dsimp only at write
    rw [spares'.target, spares'.directory] at write
    refine ⟨nowhere spares', leads_attempt_bind (leads_mono write ?_ ?_)⟩
    · exact fun m writing => ⟨_, by simpa using apart, all writing⟩
    · rintro result m ⟨writing, ended⟩
      cases result with
      | error e => exact (all writing).settle free apart ended
      | ok _ =>
        obtain ⟨entry, author, written⟩ := ended
        exact leads_pure ⟨tag, rfl, isTag, free, apart, all writing, entry, author, written⟩

/-- What waited has been moved to its target, with its author. -/
structure Moved (paths : List Path) (staged : Staged) (j k : Journal) : Prop where
  spares : Spares paths [] [j.target staged.temporary, j.target staged.target] j k
  author : k.author (j.target staged.target) = j.author (j.target staged.temporary)
  contents : ∃ contents, j.entryAt (j.target staged.temporary) = some (.file contents) ∧
    k.workspace.disk.read k.workspace.directory staged.target = .ok contents
  left : j.target staged.temporary ≠ j.target staged.target → k.entryAt (j.target staged.temporary) = none

theorem leads_commit (staged : Staged) :
    Leads call paths (fun k => Spares paths [] [j.target staged.temporary] j k ∨ Moved paths staged j k)
      (commit staged).outcome (fun result k => match result with
        | .ok _ => Moved paths staged j k
        | .error _ => Spares paths [] [j.target staged.temporary] j k ∧ Gone (j.target staged.temporary) k) j := by
  have rename : Leads call paths (fun k => k = j ∨ Moved paths staged j k)
      (Script.persist (Script.perform (.rename staged.temporary staged.target))).outcome
        (fun result k => match result with
        | .ok _ => Moved paths staged j k
        | .error _ => k = j) j := by
    refine leads_retrying (· = j) ?_ retries rfl
    rintro k rfl
    refine leads_perform fun answer l steps => ?_
    rcases steps_rename steps with ⟨e, rfl, rfl⟩ | ⟨rfl, spares, author, contents, waited, read, left⟩
    · exact ⟨Or.inl rfl, rfl, rfl⟩
    · have moved : Moved paths staged k l := ⟨spares, author, ⟨contents, waited, read⟩, left⟩
      exact ⟨Or.inr moved, moved⟩
  refine leads_attempt_bind (leads_orDiscard (leads_mono rename ?_ ?_))
  · rintro k (rfl | moved)
    · exact Or.inl (.refl _ _ _ _)
    · exact Or.inr moved
  · intro result k ended
    cases result with
    | ok _ => exact leads_pure ended
    | error e =>
      obtain rfl : k = j := ended
      exact fun l spares gone => ⟨Or.inl spares, spares, gone⟩

/-- A file has gone once it is removed if present, or the disk does not find it. -/
theorem leads_removeIfPresent (p : Path) :
    Leads call paths
      (fun k => Spares paths [] [] j k ∨ k.entryAt (j.target p) = none ∧ Spares paths [] [j.target p] j k)
      (removeIfPresent p).outcome (fun result k => match result with
        | .ok _ => (k.entryAt (j.target p) = none ∧ Spares paths [] [j.target p] j k) ∨ Spares paths [] [] j k ∧
            ∃ e, e.kind = .notFound ∧ j.workspace.disk.remove j.workspace.directory p = .error e
        | .error _ => Spares paths [] [] j k) j := by
  refine leads_attempt_bind (leads_tried (leads_perform fun answer k steps => ?_))
  rcases steps_remove steps with ⟨rfl, none, spares⟩ | ⟨e, rfl, rfl, refused⟩
  · exact ⟨Or.inr ⟨none, spares⟩, leads_pure (Or.inl ⟨none, spares⟩)⟩
  · have same : Spares paths [] [] j { j with refused := j.target p :: j.refused } := spares_refuse (j.target p) j
    refine ⟨Or.inl same, ?_⟩
    dsimp only
    split_ifs with missing
    · have missing : e.kind = .notFound := beq_iff_eq.mp missing
      exact leads_pure (Or.inr ⟨same, e, missing, refused missing⟩)
    · exact leads_pure same

/-- Whether it is there or not, nothing else changes when a file is removed. -/
theorem leads_removal (p : Path) : Leads call paths (Spares paths [] [j.target p] j) (removeIfPresent p).outcome
    (fun _ => Spares paths [] [j.target p] j) j := by
  have still {k : Journal} (same : Spares paths [] [] j k) : Spares paths [] [j.target p] j k :=
    same.widen (List.nil_subset _)
  refine leads_mono (leads_removeIfPresent p) ?_ ?_
  · rintro k (same | ⟨_, spares⟩)
    · exact still same
    · exact spares
  · intro result k ended
    cases result with
    | error e => exact still ended
    | ok _ =>
      rcases ended with ⟨_, spares⟩ | ⟨same, _⟩
      · exact spares
      · exact still same

end SourceCoverage.Staging
