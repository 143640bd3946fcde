import SourceCoverage.Proofs.Workspace.Run
import SourceCoverage.Staging

namespace SourceCoverage

/-- The locations of the files that an action may change. -/
def Action.touches (directory : Place) : Action → List DiskLocation
  | .write p _ => [Disk.target directory p]
  | .remove p => [Disk.target directory p]
  | .rename p q => [Disk.target directory p, Disk.target directory q]
  | _ => []

/-- The directory that an action may make. -/
def Action.makes : Action → List Path
  | .makeDirectory p => [p]
  | _ => []

/-- Starting a program may do anything to a disk; all other actions do what they say. -/
def Action.Starts : Action → Prop
  | .start _ _ => True
  | _ => False

/-- Actions that only look at files. -/
def Action.Asks : Action → Prop
  | .read _ | .isFile _ | .isDirectory _ | .isPresent _ => True
  | _ => False

/-- Under a fresh tag, nothing stands where files are to wait for the paths, and none of the paths leads there. -/
def Workspace.IsFresh (paths : List Path) (w : Workspace) (tag : String) : Prop :=
  ∀ p ∈ paths, w.disk.get? (w.target (Staging.temporary p tag)) = none ∧
    ∀ q ∈ paths, w.target (Staging.temporary p tag) ≠ w.target q

instance (paths : List Path) (w : Workspace) (tag : String) : Decidable (w.IsFresh paths tag) :=
  inferInstanceAs (Decidable (∀ p ∈ paths, w.disk.get? (w.target (Staging.temporary p tag)) = none ∧
    ∀ q ∈ paths, w.target (Staging.temporary p tag) ≠ w.target q))

/-- A workspace, and what is remembered of the run that led to it. -/
structure Journal where
  workspace : Workspace
  /-- The call that wrote the file at a location. -/
  author : DiskLocation → Nat
  /-- Where a file could not be removed. -/
  refused : List DiskLocation := []
  /-- The tags that were drawn, each with the workspace at that moment. -/
  drawn : List (Workspace × String) := []

namespace Journal

open Workspace

/-- What stands at a location. -/
def entryAt (j : Journal) (location : DiskLocation) : Option DiskEntry := j.workspace.disk.get? location

def target (j : Journal) (p : Path) : DiskLocation := j.workspace.target p

theorem fileAt_eq_none {j : Journal} {location : DiskLocation} (absent : j.entryAt location = none) :
    j.workspace.fileAt location = none := by
  rw [fileAt, Disk.file?, show j.workspace.disk.get? location = none from absent]

theorem entryAt_eq_some_iff {j : Journal} {location : DiskLocation} {contents : Octets} :
    j.entryAt location = some (.file contents) ↔ j.workspace.fileAt location = some contents :=
  Disk.file?_eq_some_iff.symm

/-- The journal after an action of a call. A write makes the call the author, also if it breaks off; a file that is
moved keeps its author. -/
def note (call : Nat) (j : Journal) : (action : Action) → action.Answer → Workspace → Journal
  | .write p _, _, after =>
    { j with workspace := after, author := fun location => if location = j.target p then call else j.author location }
  | .rename p q, .ok _, after =>
    { j with
      workspace := after
      author := fun location => if location = j.target q then j.author (j.target p) else j.author location }
  | .remove p, .error _, after => { j with workspace := after, refused := j.target p :: j.refused }
  | .freshTag, tag, after => { j with workspace := after, drawn := (j.workspace, tag) :: j.drawn }
  | _, _, after => { j with workspace := after }

/-- Every tag was fresh when it was drawn. -/
def DrewFresh (paths : List Path) (j : Journal) : Prop := ∀ draw ∈ j.drawn, draw.1.IsFresh paths draw.2

instance (paths : List Path) (j : Journal) : Decidable (j.DrewFresh paths) :=
  inferInstanceAs (Decidable (∀ draw ∈ j.drawn, draw.1.IsFresh paths draw.2))

/-- A step of a call. -/
def Steps (call : Nat) (action : Action) (j : Journal) (answer : action.Answer) (k : Journal) : Prop :=
  ∃ after, Happens action j.workspace answer after ∧ k = j.note call action answer after

/-- A script may end with a value, passing the journals `visited`, one after each operation. -/
inductive Logged (call : Nat) {α : Type} : Script α → Journal → List Journal → α → Journal → Prop
  | done (value : α) (j : Journal) : Logged call (.done value) j [] value j
  | act {action : Action} {next : action.Answer → Script α} {j k last : Journal} {answer : action.Answer}
      {visited : List Journal} {value : α} : Steps call action j answer k →
      Logged call (next answer) k visited value last →
      Logged call (.act action next) j (k :: visited) value last

section Logged

variable {call : Nat} {α β ε δ : Type} {j last : Journal} {visited : List Journal}

theorem note_workspace (call : Nat) (j : Journal) (action : Action) (answer : action.Answer) (after : Workspace) :
    (j.note call action answer after).workspace = after := by
  cases action with
  | rename p q => cases answer <;> rfl
  | remove p => cases answer <;> rfl
  | _ => rfl

/-- What is logged is a run. -/
theorem Logged.runs {script : Script α} {value : α} (logged : Logged call script j visited value last) :
    Runs script j.workspace value last.workspace := by
  induction logged with
  | done value j => exact .done value j.workspace
  | act steps _ ih =>
    obtain ⟨after, happens, rfl⟩ := steps
    rw [note_workspace] at ih
    exact .act happens ih

theorem logged_pure {value result : α} :
    Logged call (pure value) j visited result last ↔ visited = [] ∧ result = value ∧ last = j := by
  constructor
  · intro logged
    cases logged
    exact ⟨rfl, rfl, rfl⟩
  · rintro ⟨rfl, rfl, rfl⟩
    exact .done _ _

theorem logged_perform {action : Action} {answer : action.Answer} :
    Logged call (Script.perform action) j visited answer last ↔
      visited = [last] ∧ Steps call action j answer last := by
  constructor
  · intro logged
    cases logged with
    | act steps rest =>
      cases rest
      exact ⟨rfl, steps⟩
  · rintro ⟨rfl, steps⟩
    exact .act steps (.done _ _)

theorem logged_bind {script : Script α} {next : α → Script β} {result : β} :
    Logged call (script >>= next) j visited result last ↔
      ∃ value between before after, visited = before ++ after ∧ Logged call script j before value between ∧
        Logged call (next value) between after result last := by
  constructor
  · intro logged
    change Logged call (script.bind next) j visited result last at logged
    induction script generalizing j visited with
    | done value => exact ⟨value, j, [], visited, rfl, .done value j, logged⟩
    | act action further ih =>
      cases logged with
      | act steps rest =>
        obtain ⟨value, between, before, after, rfl, first, second⟩ := ih _ rest
        exact ⟨value, between, _ :: before, after, rfl, .act steps first, second⟩
  · rintro ⟨value, between, before, after, rfl, first, second⟩
    change Logged call (script.bind next) j (before ++ after) result last
    induction first with
    | done value j => exact second
    | act steps rest ih => exact .act steps (ih second)

/-- The run in which nothing goes wrong. -/
def record (call : Nat) {α : Type} : Script α → Journal → List Journal × α × Journal
  | .done value, j => ([], value, j)
  | .act action next, j =>
    let performed := perform action j.workspace
    let k := j.note call action performed.1 performed.2
    let (visited, value, last) := record call (next performed.1) k
    (k :: visited, value, last)

theorem logged_record (call : Nat) (script : Script α) (j : Journal) :
    Logged call script j (record call script j).1 (record call script j).2.1 (record call script j).2.2 := by
  induction script generalizing j with
  | done value => exact .done value j
  | act action next ih => exact .act ⟨_, Or.inl rfl, rfl⟩ (ih _ _)

/-- Draws are not forgotten. -/
theorem drawn_subset_note (call : Nat) (j : Journal) (action : Action) (answer : action.Answer) (after : Workspace) :
    j.drawn ⊆ (j.note call action answer after).drawn := by
  cases action with
  | freshTag => exact List.subset_cons_self _ _
  | rename p q => cases answer <;> exact List.Subset.refl _
  | remove p => cases answer <;> exact List.Subset.refl _
  | _ => exact List.Subset.refl _

theorem Logged.drawn_subset {script : Script α} {value : α} (logged : Logged call script j visited value last) :
    j.drawn ⊆ last.drawn := by
  induction logged with
  | done => exact List.Subset.refl _
  | act steps _ ih =>
    obtain ⟨after, _, rfl⟩ := steps
    exact List.Subset.trans (drawn_subset_note _ _ _ _ _) ih

theorem DrewFresh.mono {paths : List Path} (fresh : last.DrewFresh paths) (inside : j.drawn ⊆ last.drawn) :
    j.DrewFresh paths := fun draw member => fresh draw (inside member)

end Logged

/-- What may differ between two journals of a run, outside of the touched locations: where nothing stood, there may be
a directory for one of the parents, or a file that could not be removed, but not under one of the paths. -/
structure Spares (paths parents : List Path) (touched : List DiskLocation) (j k : Journal) : Prop where
  directory : k.workspace.directory = j.workspace.directory
  keeps : j.workspace.disk.Keeps k.workspace.disk
  refused : j.refused ⊆ k.refused
  entries : ∀ location, location ∉ touched → k.entryAt location = j.entryAt location ∨ j.entryAt location = none ∧
    (k.entryAt location = some .directory ∧ (∃ p ∈ parents, location = j.target p) ∨
      location ∈ k.refused ∧ ∀ p ∈ paths, location ≠ j.target p)
  authors : ∀ location, location ∉ touched → j.entryAt location ≠ none → k.author location = j.author location

namespace Spares

variable {paths parents more : List Path} {touched others : List DiskLocation} {j k l : Journal}

theorem refl (paths parents : List Path) (touched : List DiskLocation) (j : Journal) :
    Spares paths parents touched j j :=
  ⟨rfl, fun _ => id, List.Subset.refl _, fun _ _ => Or.inl rfl, fun _ _ _ => rfl⟩

theorem target (spares : Spares paths parents touched j k) (p : Path) : k.target p = j.target p := by
  rw [Journal.target, Workspace.target, spares.directory, Journal.target, Workspace.target]

/-- What stood somewhere else still stands there. -/
theorem entry_eq (spares : Spares paths parents touched j k) {location : DiskLocation} (outside : location ∉ touched)
    {entry : DiskEntry} (present : j.entryAt location = some entry) : k.entryAt location = some entry := by
  rcases spares.entries location outside with same | ⟨none, _⟩
  · rw [same, present]
  · rw [none] at present
    cases present

/-- What is nowhere was nowhere. -/
theorem entry_eq_none (spares : Spares paths parents touched j k) {location : DiskLocation}
    (outside : location ∉ touched) (absent : k.entryAt location = none) : j.entryAt location = none := by
  rcases spares.entries location outside with same | ⟨none, _⟩
  · rw [← same, absent]
  · exact none

theorem weaken (spares : Spares paths parents touched j k) (inside : parents ⊆ more) (inside' : touched ⊆ others) :
    Spares paths more others j k := by
  refine ⟨spares.directory, spares.keeps, spares.refused, fun location outside => ?_, fun location outside => ?_⟩
  · rcases spares.entries location fun member => outside (inside' member) with same |
      ⟨none, ⟨made, p, member, at'⟩ | stuck⟩
    · exact Or.inl same
    · exact Or.inr ⟨none, Or.inl ⟨made, p, inside member, at'⟩⟩
    · exact Or.inr ⟨none, Or.inr stuck⟩
  · exact spares.authors location fun member => outside (inside' member)

theorem widen (spares : Spares paths parents touched j k) (inside : touched ⊆ others) :
    Spares paths parents others j k :=
  spares.weaken (List.Subset.refl _) inside

theorem trans (first : Spares paths parents touched j k) (second : Spares paths parents touched k l) :
    Spares paths parents touched j l := by
  refine ⟨second.directory.trans first.directory, fun location => second.keeps location ∘ first.keeps location,
    List.Subset.trans first.refused second.refused, fun location outside => ?_, fun location outside present => ?_⟩
  · rcases first.entries location outside with same | ⟨none, made⟩
    · rcases second.entries location outside with same' | ⟨none, ⟨made, p, member, at'⟩ | stuck⟩
      · exact Or.inl (same'.trans same)
      · exact Or.inr ⟨same ▸ none, Or.inl ⟨made, p, member, by rw [at', first.target]⟩⟩
      · exact Or.inr ⟨same ▸ none, Or.inr ⟨stuck.1, fun p member => first.target p ▸ stuck.2 p member⟩⟩
    · refine Or.inr ⟨none, ?_⟩
      rcases made with ⟨made, parent⟩ | stuck
      · exact Or.inl ⟨second.entry_eq outside made, parent⟩
      · exact Or.inr ⟨second.refused stuck.1, stuck.2⟩
  · obtain ⟨entry, present⟩ := Option.ne_none_iff_exists'.mp present
    have still : k.entryAt location ≠ none := by simp [first.entry_eq outside present]
    rw [second.authors location outside still, first.authors location outside (by simp [present])]

/-- Where no directory is made, what a path leads to stays if it is not touched. -/
theorem entry_path (spares : Spares paths [] touched j k) {p : Path} (known : p ∈ paths)
    (outside : j.target p ∉ touched) : k.entryAt (j.target p) = j.entryAt (j.target p) := by
  rcases spares.entries _ outside with same | ⟨_, ⟨_, q, absent, _⟩ | ⟨_, apart⟩⟩
  · exact same
  · cases absent
  · exact absurd rfl (apart p known)

/-- The file to which a path leads stays if it is not touched. -/
theorem file_path (spares : Spares paths parents touched j k) {p : Path} (known : p ∈ paths)
    (outside : j.target p ∉ touched) : k.workspace.fileAt (j.target p) = j.workspace.fileAt (j.target p) := by
  unfold fileAt Disk.file?
  rcases spares.entries _ outside with same | ⟨none, ⟨made, _⟩ | ⟨_, apart⟩⟩
  · rw [show k.workspace.disk.get? _ = j.workspace.disk.get? _ from same]
  · rw [show k.workspace.disk.get? _ = _ from made, show j.workspace.disk.get? _ = _ from none]
  · exact absurd rfl (apart p known)

end Spares

/-- Nothing is left at a location, unless it could not be removed. -/
def Gone (location : DiskLocation) (j : Journal) : Prop := j.entryAt location = none ∨ location ∈ j.refused

theorem Gone.spares {paths : List Path} {touched : List DiskLocation} {location : DiskLocation} {j k : Journal}
    (gone : Gone location j) (spares : Spares paths [] touched j k) (outside : location ∉ touched) :
    Gone location k := by
  rcases gone with none | stuck
  · rcases spares.entries location outside with same | ⟨_, ⟨_, q, absent, _⟩ | ⟨stuck, _⟩⟩
    · exact Or.inl (same.trans none)
    · cases absent
    · exact Or.inr stuck
  · exact Or.inr (spares.refused stuck)

/-- A place that was free before need not be spared once it is free again. -/
theorem Spares.settle {paths parents : List Path} {touched : List DiskLocation} {location : DiskLocation}
    {j k : Journal} (spares : Spares paths parents (location :: touched) j k) (free : j.entryAt location = none)
    (apart : ∀ p ∈ paths, location ≠ j.target p) (gone : Gone location k) : Spares paths parents touched j k := by
  refine ⟨spares.directory, spares.keeps, spares.refused, fun other outside => ?_, fun other outside present => ?_⟩
  · by_cases same : other = location
    · subst same
      rcases gone with none | stuck
      · exact Or.inl (none.trans free.symm)
      · exact Or.inr ⟨free, Or.inr ⟨stuck, apart⟩⟩
    · exact spares.entries other (by simpa [same] using outside)
  · have different : other ≠ location := fun same => present (same ▸ free)
    exact spares.authors other (by simpa [different] using outside) present

section Steps

variable {call : Nat} {paths : List Path} {j k : Journal}

/-- A disk that is changed at touched locations only. -/
theorem spares_of_disk {touched : List DiskLocation} {disk : Disk} {author : DiskLocation → Nat}
    (keeps : j.workspace.disk.Keeps disk)
    (entries : ∀ location, location ∉ touched → disk.get? location = j.entryAt location)
    (authors : ∀ location, location ∉ touched → author location = j.author location) :
    Spares paths [] touched j { j with workspace := { j.workspace with disk }, author } :=
  ⟨rfl, keeps, List.Subset.refl _, fun location outside => Or.inl (entries location outside),
    fun location outside _ => authors location outside⟩

theorem steps_write {p : Path} {contents : Octets} {answer : Except FileError Unit}
    (steps : Steps call (.write p contents) j answer k) :
    Spares paths [] [j.target p] j k ∧ k.author (j.target p) = call ∧ (answer = .ok () →
      j.workspace.disk.write j.workspace.directory p contents = .ok k.workspace.disk ∧
        k.entryAt (j.target p) = some (.file contents)) := by
  obtain ⟨after, happens, rfl⟩ := steps
  refine ⟨?_, if_pos rfl, fun ok => ?_⟩
  · have written {part : Octets} {disk : Disk}
        (done : j.workspace.disk.write j.workspace.directory p part = .ok disk) :
        Spares paths [] [j.target p] j (j.note call (.write p contents) answer { j.workspace with disk }) := by
      refine spares_of_disk (Disk.keeps_write done) (fun location outside => ?_) fun location outside => ?_
      · exact ((Disk.get?_write done).2 location).trans (if_neg fun same => outside (List.mem_singleton.mpr same))
      · exact if_neg fun same => outside (List.mem_singleton.mpr same)
    have same : Spares paths [] [j.target p] j (j.note call (.write p contents) answer j.workspace) :=
      spares_of_disk (fun _ => id) (fun _ _ => rfl) fun location outside => if_neg (by simpa using outside)
    rcases happens with honest | ⟨_, rfl | ⟨part, disk, _, done, rfl⟩⟩
    · cases done : j.workspace.disk.write j.workspace.directory p contents with
      | error e =>
        simp only [perform, updated, done] at honest
        cases honest
        exact same
      | ok disk =>
        simp only [perform, updated, done] at honest
        cases honest
        exact written done
    · exact same
    · exact written done
  · obtain ⟨disk, done, rfl⟩ := (happens_write happens).2 ok
    exact ⟨done, ((Disk.get?_write done).2 _).trans (if_pos rfl)⟩

theorem steps_remove {p : Path} {answer : Except FileError Unit} (steps : Steps call (.remove p) j answer k) :
    (answer = .ok () ∧ k.entryAt (j.target p) = none ∧ Spares paths [] [j.target p] j k) ∨
      ∃ e, answer = .error e ∧ k = { j with refused := j.target p :: j.refused } ∧
        (e.kind = .notFound → j.workspace.disk.remove j.workspace.directory p = .error e) := by
  obtain ⟨after, happens, rfl⟩ := steps
  rcases happens with honest | ⟨⟨e, rfl, kind⟩, rfl⟩
  · cases removed : j.workspace.disk.remove j.workspace.directory p with
    | error e =>
      simp only [perform, updated, removed] at honest
      cases honest
      exact Or.inr ⟨e, rfl, rfl, fun _ => rfl⟩
    | ok disk =>
      simp only [perform, updated, removed] at honest
      cases honest
      have entries := (Disk.get?_remove removed).2
      refine Or.inl ⟨rfl, (entries _).trans (if_pos rfl), ?_⟩
      refine spares_of_disk (Disk.keeps_remove removed) (fun location outside => ?_) fun _ _ => rfl
      exact (entries location).trans (if_neg fun same => outside (List.mem_singleton.mpr same))
  · exact Or.inr ⟨e, rfl, rfl, fun missing => absurd missing kind⟩

theorem spares_refuse (location : DiskLocation) (j : Journal) :
    Spares paths [] [] j { j with refused := location :: j.refused } :=
  ⟨rfl, fun _ => id, List.subset_cons_self _ _, fun _ _ => Or.inl rfl, fun _ _ _ => rfl⟩

/-- After a removal, nothing is left unless it failed. -/
theorem gone_of_remove {p : Path} {answer : Except FileError Unit} (steps : Steps call (.remove p) j answer k) :
    Spares paths [] [j.target p] j k ∧ Gone (j.target p) k := by
  rcases steps_remove steps with ⟨_, none, spares⟩ | ⟨e, _, rfl, _⟩
  · exact ⟨spares, Or.inl none⟩
  · exact ⟨(spares_refuse _ j).widen (List.nil_subset _), Or.inr List.mem_cons_self⟩

theorem steps_rename {p q : Path} {answer : Except FileError Unit} (steps : Steps call (.rename p q) j answer k) :
    (∃ e, answer = .error e ∧ k = j) ∨
      answer = .ok () ∧ Spares paths [] [j.target p, j.target q] j k ∧ k.author (j.target q) = j.author (j.target p) ∧
        ∃ contents, j.entryAt (j.target p) = some (.file contents) ∧
          k.workspace.disk.read k.workspace.directory q = .ok contents ∧
          (j.target p ≠ j.target q → k.entryAt (j.target p) = none) := by
  obtain ⟨after, happens, rfl⟩ := steps
  rcases happens with honest | ⟨⟨e, rfl, _⟩, rfl⟩
  · cases moved : j.workspace.disk.rename j.workspace.directory p q with
    | error e =>
      simp only [perform, updated, moved] at honest
      cases honest
      exact Or.inl ⟨e, rfl, rfl⟩
    | ok disk =>
      simp only [perform, updated, moved] at honest
      cases honest
      obtain ⟨contents, present, _, entries⟩ := Disk.get?_rename moved
      refine Or.inr ⟨rfl, ?_, if_pos rfl, contents, present, Disk.read_rename moved present, fun different => ?_⟩
      · refine spares_of_disk (Disk.keeps_rename moved) (fun location outside => ?_) fun location outside => ?_
        · simp only [List.mem_cons, List.not_mem_nil, or_false, not_or] at outside
          exact (entries location).trans ((if_neg outside.2).trans (if_neg outside.1))
        · simp only [List.mem_cons, List.not_mem_nil, or_false, not_or] at outside
          exact if_neg outside.2
      · exact (entries _).trans ((if_neg different).trans (if_pos rfl))
  · exact Or.inl ⟨e, rfl, rfl⟩

theorem steps_makeDirectory {p : Path} {answer : Except FileError Unit}
    (steps : Steps call (.makeDirectory p) j answer k) : Spares paths [p] [] j k := by
  obtain ⟨after, happens, rfl⟩ := steps
  rcases happens with honest | ⟨_, rfl⟩
  · cases made : j.workspace.disk.makeDirectory j.workspace.directory p with
    | error e =>
      simp only [perform, updated, made] at honest
      cases honest
      exact .refl _ _ _ _
    | ok disk =>
      simp only [perform, updated, made] at honest
      cases honest
      obtain ⟨absent, entries⟩ := Disk.get?_makeDirectory made
      refine ⟨rfl, Disk.keeps_makeDirectory made, List.Subset.refl _, fun location _ => ?_, fun _ _ _ => rfl⟩
      by_cases same : location = Disk.target j.workspace.directory p
      · subst same
        exact Or.inr ⟨absent, Or.inl ⟨(entries _).trans (if_pos rfl), p, List.mem_singleton.mpr rfl, rfl⟩⟩
      · exact Or.inl ((entries location).trans (if_neg same))
  · exact .refl _ _ _ _

theorem spares_of_same_disk (directory : k.workspace.directory = j.workspace.directory)
    (disk : k.workspace.disk = j.workspace.disk) (refused : k.refused = j.refused) (author : k.author = j.author) :
    Spares paths [] [] j k := by
  refine ⟨directory, ?_, ?_, fun location _ => Or.inl ?_, fun _ _ _ => congrFun author _⟩
  · rw [disk]
    exact fun _ => id
  · rw [refused]
    exact List.Subset.refl _
  · rw [entryAt, disk, entryAt]

/-- No action but the start of a program changes more than it touches and makes. -/
theorem spares_of_steps {action : Action} {answer : action.Answer} (steps : Steps call action j answer k)
    (remains : ¬ action.Starts) : Spares paths action.makes (action.touches j.workspace.directory) j k := by
  cases action with
  | write p contents => exact (steps_write steps).1
  | remove p => exact (gone_of_remove steps).1
  | makeDirectory p => exact steps_makeDirectory steps
  | rename p q =>
    rcases steps_rename steps with ⟨_, _, rfl⟩ | ⟨_, spares, _⟩
    · exact .refl _ _ _ _
    · exact spares
  | print text =>
    obtain ⟨after, honest | disturbed, rfl⟩ := steps
    · cases honest
      exact spares_of_same_disk rfl rfl rfl rfl
    · exact disturbed.elim
  | start program arguments => exact absurd trivial remains
  | _ =>
    obtain ⟨after, honest | ⟨_, rfl⟩, rfl⟩ := steps
    · cases honest
      exact spares_of_same_disk rfl rfl rfl rfl
    · exact spares_of_same_disk rfl rfl rfl rfl

theorem steps_freshTag {tag : String} (steps : Steps call .freshTag j tag k) :
    IsTag tag ∧ (j.workspace, tag) ∈ k.drawn ∧ Spares paths [] [] j k := by
  have spares : Spares paths [] [] j k := spares_of_steps steps id
  obtain ⟨after, happens, rfl⟩ := steps
  exact ⟨(happens_freshTag happens).1, List.mem_cons_self, spares⟩

end Steps

/-- Whatever happens, a script started here passes only journals with the invariant and ends as told, as long as the
tags that are drawn are fresh. -/
def Leads (call : Nat) (paths : List Path) {α : Type} (inv : Journal → Prop) (script : Script α)
    (post : α → Journal → Prop) (j : Journal) : Prop :=
  ∀ visited value last, Logged call script j visited value last → last.DrewFresh paths →
    (∀ k ∈ visited, inv k) ∧ post value last

section Leads

variable {call : Nat} {paths : List Path} {α β ε δ : Type} {inv inv' : Journal → Prop} {j : Journal}

theorem leads_mono {script : Script α} {post post' : α → Journal → Prop} (leads : Leads call paths inv script post j)
    (weaker : ∀ k, inv k → inv' k) (implied : ∀ value k, post value k → post' value k) :
    Leads call paths inv' script post' j := by
  intro visited value last logged fresh
  obtain ⟨along, ended⟩ := leads visited value last logged fresh
  exact ⟨fun k member => weaker k (along k member), implied value last ended⟩

theorem leads_pure {value : α} {post : α → Journal → Prop} (holds : post value j) :
    Leads call paths inv (pure value) post j := by
  intro visited result last logged _
  obtain ⟨rfl, rfl, rfl⟩ := logged_pure.mp logged
  exact ⟨by simp, holds⟩

theorem leads_perform {action : Action} {post : action.Answer → Journal → Prop}
    (step : ∀ answer k, Steps call action j answer k → inv k ∧ post answer k) :
    Leads call paths inv (Script.perform action) post j := by
  intro visited answer last logged _
  obtain ⟨rfl, steps⟩ := logged_perform.mp logged
  exact ⟨by simpa using (step answer last steps).1, (step answer last steps).2⟩

theorem leads_freshTag {post : String → Journal → Prop}
    (step : ∀ tag k, IsTag tag → j.workspace.IsFresh paths tag → Spares paths [] [] j k → inv k ∧ post tag k) :
    Leads call paths inv (Script.perform .freshTag) post j := by
  intro visited tag last logged fresh
  obtain ⟨passed, steps⟩ := logged_perform.mp logged
  obtain ⟨isTag, drawn, spares⟩ := steps_freshTag steps
  obtain ⟨here, ended⟩ := step tag last isTag (fresh (j.workspace, tag) drawn) spares
  subst passed
  exact ⟨List.forall_mem_singleton.mpr here, ended⟩

theorem leads_bind {script : Script α} {next : α → Script β} {post : β → Journal → Prop}
    (leads : Leads call paths inv script (fun value => Leads call paths inv (next value) post) j) :
    Leads call paths inv (script >>= next) post j := by
  intro visited result last logged fresh
  obtain ⟨value, between, before, after, rfl, first, second⟩ := logged_bind.mp logged
  obtain ⟨along, rest⟩ := leads before value between first (fresh.mono second.drawn_subset)
  obtain ⟨along', ended⟩ := rest after result last second fresh
  exact ⟨List.forall_mem_append.mpr ⟨along, along'⟩, ended⟩

/-- An attempt goes on after a success and ends at once with a failure. -/
theorem leads_attempt_bind {attempt : Attempt ε α} {next : α → Attempt ε β} {post : Except ε β → Journal → Prop}
    (leads : Leads call paths inv attempt.outcome (fun result k => match result with
      | .ok value => Leads call paths inv (next value).outcome post k
      | .error e => post (.error e) k) j) :
    Leads call paths inv (attempt >>= next).outcome post j := by
  unfold Attempt.outcome
  rw [ExceptT.run_bind]
  refine leads_bind (leads_mono leads (fun _ => id) ?_)
  intro result k holds
  cases result with
  | ok value => exact holds
  | error e => exact leads_pure holds

theorem leads_lift {script : Script α} {post : Except ε α → Journal → Prop}
    (leads : Leads call paths inv script (fun value => post (.ok value)) j) :
    Leads call paths inv (liftM script : Attempt ε α).outcome post j :=
  leads_bind (leads_mono leads (fun _ => id) fun _ _ holds => leads_pure holds)

theorem leads_tried {attempt : Attempt ε α} {post : Except δ (Except ε α) → Journal → Prop}
    (leads : Leads call paths inv attempt.outcome (fun result => post (.ok result)) j) :
    Leads call paths inv (attempt.tried : Attempt δ _).outcome post j :=
  leads_lift leads

theorem leads_mapError {f : ε → δ} {attempt : Attempt ε α} {post : Except δ α → Journal → Prop}
    (leads : Leads call paths inv attempt.outcome (fun result => post (result.mapError f)) j) :
    Leads call paths inv (attempt.mapError f).outcome post j :=
  leads_bind (leads_mono leads (fun _ => id) fun _ _ holds => leads_pure holds)

theorem leads_runs {script : Script α} {post : α → Journal → Prop} (leads : Leads call paths inv script post j) :
    Leads call paths inv script (fun value k => post value k ∧ Runs script j.workspace value k.workspace) j := by
  intro visited value last logged fresh
  obtain ⟨along, ended⟩ := leads visited value last logged fresh
  exact ⟨along, ended, logged.runs⟩

/-- Questions change nothing. -/
theorem leads_asking {script : Script α} (only : script.Only Action.Asks) :
    Leads call paths (· = j) script (fun value k => k = j ∧ Runs script j.workspace value k.workspace) j := by
  refine leads_runs ?_
  rintro visited value last logged -
  induction logged with
  | done => exact ⟨by simp, rfl⟩
  | @act action _ j k _ _ _ _ steps _ ih =>
    obtain ⟨asks, further⟩ := only
    obtain rfl : k = j := by
      obtain ⟨after, happens, rfl⟩ := steps
      cases action with
      | read p | isFile p | isDirectory p | isPresent p =>
        rcases happens with honest | ⟨_, rfl⟩
        · cases honest
          rfl
        · rfl
      | _ => cases asks
    obtain ⟨along, ended⟩ := ih (further _)
    exact ⟨List.forall_mem_cons.mpr ⟨rfl, along⟩, ended⟩

theorem leads_only {allowed : Action → Prop} {script : Script α} (only : script.Only allowed) {parents : List Path}
    {touched : List DiskLocation} (remains : ∀ action, allowed action → ¬ action.Starts)
    (makes : ∀ action, allowed action → action.makes ⊆ parents)
    (touches : ∀ action, allowed action → action.touches j.workspace.directory ⊆ touched) :
    Leads call paths (Spares paths parents touched j) script (fun _ => Spares paths parents touched j) j := by
  suffices follows : ∀ k, Spares paths parents touched j k → ∀ visited value last,
      Logged call script k visited value last →
      (∀ l ∈ visited, Spares paths parents touched j l) ∧ Spares paths parents touched j last from
    fun visited value last logged _ => follows j (.refl _ _ _ _) visited value last logged
  intro k spares visited value last logged
  induction logged with
  | done => exact ⟨by simp, spares⟩
  | act steps _ ih =>
    obtain ⟨here, further⟩ := only
    have step : Spares paths parents touched _ _ := (spares_of_steps steps (remains _ here)).weaken (makes _ here)
      (spares.directory ▸ touches _ here)
    obtain ⟨along, ended⟩ := ih (further _) (spares.trans step)
    exact ⟨List.forall_mem_cons.mpr ⟨spares.trans step, along⟩, ended⟩

end Leads

end Journal

end SourceCoverage
