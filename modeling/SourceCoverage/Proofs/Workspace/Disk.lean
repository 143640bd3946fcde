import SourceCoverage.Proofs.Path
import SourceCoverage.Workspace.Disk

namespace SourceCoverage

open SourceCoverage.Path

/-- The names on the way, from the start of a path to what it leads to. -/
def Path.steps (p : Path) : List String := (named p.text.toList).map String.ofList

namespace Disk

/-- Where steps lead from a location. -/
def follow (location : DiskLocation) (steps : List String) : DiskLocation :=
  steps.foldl (fun location step => if step = ".." then location.dropLast else location ++ [step]) location

theorem follow_parent (location : DiskLocation) (steps : List String) :
    follow location (steps ++ [".."]) = (follow location steps).dropLast := by
  simp [follow]

theorem follow_name (location : DiskLocation) (steps : List String) {name : String} (down : name ≠ "..") :
    follow location (steps ++ [name]) = follow location steps ++ [name] := by
  simp [follow, down]

/-- The directory from which a path is followed. -/
def startOf (directory : Place) (p : Path) : Place := if p.isAbsolute then ⟨[], true⟩ else directory

/-- The location to which a path leads. -/
def target (directory : Place) (p : Path) : DiskLocation := follow (startOf directory p).location p.steps

/-- The contents of the file at a location. -/
def file? (disk : Disk) (location : DiskLocation) : Option Octets :=
  match disk.get? location with
  | some (.file contents) => some contents
  | _ => none

variable {disk disk' : Disk} {directory : Place} {p : Path}

theorem file?_eq_some_iff {location : DiskLocation} {contents : Octets} :
    disk.file? location = some contents ↔ disk.get? location = some (.file contents) := by
  unfold file?
  split <;> simp_all

theorem lookup_erase (entries : List (DiskLocation × DiskEntry)) (location other : DiskLocation) :
    (entries.filter (·.1 != location)).lookup other = if other = location then none else entries.lookup other := by
  induction entries with
  | nil => simp
  | cons entry entries ih =>
    by_cases gone : entry.1 = location
    · rw [List.filter_cons_of_neg (by simpa using gone), ih, List.lookup_cons, gone]
      by_cases same : other = location
      · simp [same]
      · simp [same, beq_eq_false_iff_ne.mpr same]
    · rw [List.filter_cons_of_pos (by simpa using gone), List.lookup_cons, ih, List.lookup_cons]
      by_cases same : other = location
      · simp [same, beq_eq_false_iff_ne.mpr (Ne.symm gone)]
      · simp [same]

theorem get?_erase {location : DiskLocation} (below : location ≠ []) (disk : Disk) (other : DiskLocation) :
    (disk.erase location).get? other = if other = location then none else disk.get? other := by
  unfold get? erase
  rw [lookup_erase]
  by_cases root : other = []
  · simp [root, Ne.symm below]
  · by_cases same : other = location
    · simp [same, below]
    · simp [root, same]

theorem get?_insert {location : DiskLocation} (below : location ≠ []) (disk : Disk) (entry : DiskEntry)
    (other : DiskLocation) :
    (disk.insert location entry).get? other = if other = location then some entry else disk.get? other := by
  unfold get? insert erase
  rw [List.lookup_append, lookup_erase]
  by_cases root : other = []
  · simp [root, Ne.symm below]
  · by_cases same : other = location
    · simp [same, below]
    · simp [root, same, List.lookup_cons, List.lookup_nil, beq_eq_false_iff_ne.mpr same]

theorem steps_eq (p : Path) : p.steps = (segments p).filter (· != ".") := by
  have dot : ∀ part : List Char, (String.ofList part != ".") = (part != ['.']) := by
    intro part
    rw [Bool.eq_iff_iff, bne_iff_ne, bne_iff_ne, ne_eq, ne_eq, ← String.toList_inj, String.toList_ofList]
    rfl
  unfold Path.steps segments named
  rw [List.filter_map, List.filter_filter]
  congr 1
  refine List.filter_congr ?_
  intro part _
  rw [Function.comp_apply, dot, isSilent, Bool.not_or, Bool.and_comm]
  cases part <;> rfl

theorem foldlM_enter (names : List String) (place : Place) :
    names.foldlM disk.enter place = (names.filter (· != ".")).foldlM disk.enter place := by
  induction names generalizing place with
  | nil => rfl
  | cons name names ih =>
    by_cases dot : name = "."
    · subst dot
      rw [List.foldlM_cons, List.filter_cons_of_neg (by simp)]
      exact ih place
    · rw [List.foldlM_cons, List.filter_cons_of_pos (by simpa using dot), List.foldlM_cons]
      refine congrArg _ (funext fun place => ?_)
      exact ih place

theorem location_enter {place after : Place} {name : String} (visible : name ≠ ".")
    (entered : disk.enter place name = .ok after) :
    after.location = if name = ".." then place.location.dropLast else place.location ++ [name] := by
  unfold enter at entered
  rw [if_neg (by simpa using visible)] at entered
  split at entered
  · rename_i up
    cases entered
    rw [if_pos (beq_iff_eq.mp up)]
    rfl
  · rename_i down
    rw [if_neg (by simpa using down)]
    cases entry : disk.entryIn place name with
    | error e => simp [entry, bind, Except.bind] at entered
    | ok found =>
      rw [entry] at entered
      rcases found with _ | _ | _
      · cases entered
      · cases entered
      · cases entered
        rfl

/-- Wherever steps can be followed, they lead to one location. -/
theorem location_foldlM {steps : List String} (visible : ∀ step ∈ steps, step ≠ ".") {place after : Place}
    (walked : steps.foldlM disk.enter place = .ok after) : after.location = follow place.location steps := by
  induction steps generalizing place with
  | nil =>
    cases walked
    rfl
  | cons step steps ih =>
    rw [List.foldlM_cons] at walked
    cases entered : disk.enter place step with
    | error e => simp [entered, bind, Except.bind] at walked
    | ok next =>
      rw [entered] at walked
      rw [ih (fun s member => visible s (List.mem_cons_of_mem _ member)) walked,
        location_enter (visible step List.mem_cons_self) entered]
      rfl

/-- How a path is followed: to a directory, or in a directory to a last name. -/
inductive Follows (disk : Disk) (directory : Place) (p : Path) (found : Found) : Prop
  | directory : found.name = none → found.entry = some .directory → Follows disk directory p found
  | name {front : List String} {name : String} : p.steps = front ++ [name] → name ≠ ".." → found.name = some name →
      front.foldlM disk.enter (startOf directory p) = .ok found.place →
      disk.entryIn found.place name = .ok found.entry → Follows disk directory p found

theorem visible_steps (p : Path) : ∀ step ∈ p.steps, step ≠ "." := by
  intro step member
  rw [steps_eq] at member
  simpa using (List.mem_filter.mp member).2

/-- The steps of a path whose segments are known but for the last. -/
theorem steps_of_getLast? {last : String} (ends : (segments p).getLast? = some last) :
    p.steps = (segments p).dropLast.filter (· != ".") ++ if last = "." then [] else [last] := by
  have whole := List.dropLast_append_getLast? last ends
  rw [steps_eq]
  conv_lhs => rw [← whole]
  rw [List.filter_append]
  by_cases dot : last = "." <;> simp [dot]

theorem find_eq_ok {found : Found} (ok : disk.find directory p = .ok found) :
    found.location = target directory p ∧ Follows disk directory p found := by
  have start : startOf directory p = if p.isAbsolute = true then { location := [] } else directory := rfl
  simp only [find, bind, Except.bind, pure, Except.pure, throw, throwThe, MonadExceptOf.throw] at ok
  rw [← start] at ok
  split_ifs at ok
  cases ends : (segments p).getLast? with
  | none =>
    rw [ends] at ok
    cases ok
    have steps : p.steps = [] := by rw [steps_eq, List.getLast?_eq_none_iff.mp ends]; rfl
    refine ⟨?_, .directory rfl rfl⟩
    rw [target, steps, Found.location]
    exact List.append_nil _
  | some last =>
    have steps := steps_of_getLast? ends
    rw [ends] at ok
    dsimp only at ok
    rw [foldlM_enter] at ok
    have visible : ∀ step ∈ (segments p).dropLast.filter (· != "."), step ≠ "." := by simp
    generalize (segments p).dropLast.filter (· != ".") = front at steps ok visible
    cases walked : front.foldlM disk.enter (startOf directory p) with
    | error e => simp [walked] at ok
    | ok place =>
      have location := location_foldlM visible walked
      rw [walked] at ok
      dsimp only at ok
      split_ifs at ok with dot dots
      · cases ok
        refine ⟨?_, .directory rfl rfl⟩
        rw [target, steps, if_pos (beq_iff_eq.mp dot), List.append_nil, ← location]
        exact List.append_nil _
      · cases ok
        refine ⟨?_, .directory rfl rfl⟩
        rw [target, steps, if_neg (by simpa using dot), beq_iff_eq.mp dots, follow_parent, ← location]
        exact List.append_nil _
      · have dot : last ≠ "." := by simpa using dot
        have dots : last ≠ ".." := by simpa using dots
        rw [if_neg dot] at steps
        cases entry : disk.entryIn place last with
        | error e => simp [entry] at ok
        | ok found' =>
          rw [entry] at ok
          cases ok
          refine ⟨?_, .name steps dots rfl walked entry⟩
          rw [target, steps, follow_name _ _ dots, ← location]
          rfl

/-- A directory that lives holds under a name what stands at its location. -/
theorem entryIn_eq_ok {place : Place} {name : String} {entry : Option DiskEntry} (lives : place.lives = true)
    (ok : disk.entryIn place name = .ok entry) : entry = disk.get? (place.location ++ [name]) := by
  unfold entryIn at ok
  split_ifs at ok
  · simp_all
  · exact (Except.ok.inj ok).symm

/-- What is found is what stands at the location of the path, in a directory that lives. -/
theorem Follows.get? {found : Found} (follows : Follows disk directory p found) {entry : DiskEntry}
    (present : found.entry = some entry) (named : found.name ≠ none) :
    found.place.lives = true ∧ disk.get? found.location = some entry := by
  cases follows with
  | directory none _ => exact absurd none named
  | @name front name _ _ last _ inside =>
    have lives : found.place.lives = true := by
      cases lives : found.place.lives with
      | true => rfl
      | false => simp [entryIn, lives, present] at inside
    rw [Found.location, last, Option.toList_some, ← entryIn_eq_ok lives inside]
    exact ⟨lives, present⟩

theorem Found.name_ne_none {found : Found} (ok : disk.find directory p = .ok found) {contents : Octets}
    (file : found.entry = some (.file contents)) : found.name ≠ none := by
  cases (find_eq_ok ok).2 with
  | directory _ directory =>
    rw [directory] at file
    cases file
  | name _ _ last _ _ => simp [last]

theorem Found.file?_eq_some {found : Found} (ok : disk.find directory p = .ok found) {contents : Octets}
    (file : found.entry = some (.file contents)) : disk.file? (target directory p) = some contents := by
  obtain ⟨location, follows⟩ := find_eq_ok ok
  rw [← location, file?_eq_some_iff]
  exact (follows.get? file (Found.name_ne_none ok file)).2

theorem read_eq_ok_iff {contents : Octets} :
    disk.read directory p = .ok contents ↔ disk.stat directory p = .ok (.file contents) := by
  cases found : disk.stat directory p with
  | error e => simp [Disk.read, found, bind, Except.bind]
  | ok entry =>
    cases entry with
    | directory => simp [Disk.read, found, bind, Except.bind, throw, throwThe, MonadExceptOf.throw]
    | file given => simp [Disk.read, found, bind, Except.bind, pure, Except.pure]

/-- What it takes to read a file. -/
theorem read_eq_ok {contents : Octets} (ok : disk.read directory p = .ok contents) :
    ∃ found, disk.find directory p = .ok found ∧ found.entry = some (.file contents) ∧ found.slash = false := by
  rw [read_eq_ok_iff] at ok
  cases found : disk.find directory p with
  | error e => simp [stat, found, bind, Except.bind] at ok
  | ok found' =>
    simp only [stat, found, bind, Except.bind] at ok
    cases entry : found'.entry with
    | none => simp [entry, throw, throwThe, MonadExceptOf.throw] at ok
    | some e =>
      cases e with
      | directory => simp [entry, pure, Except.pure] at ok
      | file given =>
        simp only [entry] at ok
        split_ifs at ok with slash
        cases ok
        exact ⟨found', rfl, entry, by simpa using slash⟩

theorem file?_of_read {contents : Octets} (ok : disk.read directory p = .ok contents) :
    disk.file? (target directory p) = some contents := by
  obtain ⟨found, followed, file, _⟩ := read_eq_ok ok
  exact Found.file?_eq_some followed file

/-- A path that can be read ends in a name. -/
theorem steps_of_read {contents : Octets} (ok : disk.read directory p = .ok contents) :
    ∃ front name, p.steps = front ++ [name] ∧ name ≠ ".." := by
  obtain ⟨found, followed, file, _⟩ := read_eq_ok ok
  cases (find_eq_ok followed).2 with
  | directory _ directory =>
    rw [directory] at file
    cases file
  | name steps down _ _ _ => exact ⟨_, _, steps, down⟩

/-- The location of a name is not the root. -/
theorem Found.location_ne_nil {found : Found} (named : found.name ≠ none) : found.location ≠ [] := by
  obtain ⟨name, last⟩ := Option.ne_none_iff_exists'.mp named
  simp [Found.location, last]

/-- A directory that lives holds what stands at the location. -/
theorem Follows.entry_eq {found : Found} (follows : Follows disk directory p found) (named : found.name ≠ none)
    (lives : found.place.lives = true) : found.entry = disk.get? found.location := by
  cases follows with
  | directory none _ => exact absurd none named
  | @name front name _ _ last _ inside =>
    rw [Found.location, last, Option.toList_some]
    exact entryIn_eq_ok lives inside

/-- What it takes to write a file. -/
theorem write_eq_ok {contents : Octets} (ok : disk.write directory p contents = .ok disk') :
    ∃ found, disk.find directory p = .ok found ∧ found.name ≠ none ∧ found.slash = false ∧
      found.place.lives = true ∧ disk.get? found.location ≠ some .directory ∧
      disk' = disk.insert found.location (.file contents) := by
  cases found : disk.find directory p with
  | error e => simp [write, found, bind, Except.bind] at ok
  | ok found' =>
    simp only [write, found, bind, Except.bind, throw, throwThe, MonadExceptOf.throw, pure, Except.pure] at ok
    split_ifs at ok with refused gone
    cases ok
    simp only [Bool.or_eq_true, not_or, Option.isNone_iff_eq_none, beq_iff_eq] at refused
    obtain ⟨⟨named, slash⟩, noDirectory⟩ := refused
    have lives : found'.place.lives = true := by simpa using gone
    refine ⟨found', rfl, named, by simpa using slash, lives, ?_, rfl⟩
    rwa [← (find_eq_ok found).2.entry_eq named lives]

/-- What it takes to remove a file. -/
theorem remove_eq_ok (ok : disk.remove directory p = .ok disk') :
    ∃ found contents, disk.find directory p = .ok found ∧ found.name ≠ none ∧
      disk.get? found.location = some (.file contents) ∧ disk' = disk.erase found.location := by
  cases found : disk.find directory p with
  | error e => simp [remove, found, bind, Except.bind] at ok
  | ok found' =>
    simp only [remove, found, bind, Except.bind, throw, throwThe, MonadExceptOf.throw, pure, Except.pure] at ok
    cases entry : found'.entry with
    | none => simp [entry] at ok
    | some e =>
      cases e with
      | directory => simp [entry] at ok
      | file contents =>
        simp only [entry] at ok
        split_ifs at ok
        cases ok
        have named := Found.name_ne_none found entry
        exact ⟨found', contents, rfl, named, ((find_eq_ok found).2.get? entry named).2, rfl⟩

/-- A directory is made where nothing stands. -/
theorem makeDirectory_eq_ok (ok : disk.makeDirectory directory p = .ok disk') :
    ∃ found, disk.find directory p = .ok found ∧ found.name ≠ none ∧ disk.get? found.location = none ∧
      disk' = disk.insert found.location .directory := by
  cases found : disk.find directory p with
  | error e => simp [makeDirectory, found, bind, Except.bind] at ok
  | ok found' =>
    simp only [makeDirectory, found, bind, Except.bind, throw, throwThe, MonadExceptOf.throw, pure, Except.pure] at ok
    split_ifs at ok with refused gone
    cases ok
    simp only [Bool.or_eq_true, not_or, Option.isNone_iff_eq_none, Option.isSome_iff_ne_none, ne_eq,
      Decidable.not_not] at refused
    obtain ⟨named, absent⟩ := refused
    refine ⟨found', rfl, named, ?_, rfl⟩
    rw [← (find_eq_ok found).2.entry_eq named (by simpa using gone), absent]

/-- What it takes to move a file. -/
theorem rename_eq_ok {q : Path} (ok : disk.rename directory p q = .ok disk') :
    ∃ origin goal contents, disk.find directory p = .ok origin ∧ disk.find directory q = .ok goal ∧
      origin.name ≠ none ∧ goal.name ≠ none ∧ goal.slash = false ∧ goal.place.lives = true ∧
      disk.get? origin.location = some (.file contents) ∧ disk.get? goal.location ≠ some .directory ∧
      disk' = (disk.erase origin.location).insert goal.location (.file contents) := by
  cases found : disk.find directory p with
  | error e => simp [rename, found, bind, Except.bind] at ok
  | ok origin =>
    cases found' : disk.find directory q with
    | error e => simp [rename, found, found', bind, Except.bind] at ok
    | ok goal =>
      simp only [rename, found, found', bind, Except.bind, throw, throwThe, MonadExceptOf.throw, pure,
        Except.pure] at ok
      cases entry : origin.entry with
      | none =>
        simp only [entry] at ok
        split_ifs at ok
      | some e =>
        cases e with
        | directory =>
          simp only [entry] at ok
          split_ifs at ok
        | file contents =>
          simp only [entry] at ok
          split_ifs at ok with nameless gone slashes busy
          cases ok
          have named := Found.name_ne_none found entry
          have named' : goal.name ≠ none := by
            intro none
            simp [none] at nameless
          have lives : goal.place.lives = true := by simpa using gone
          simp only [Bool.or_eq_true, not_or, Bool.not_eq_true] at slashes
          refine ⟨origin, goal, contents, rfl, rfl, named, named', slashes.2, lives,
            ((find_eq_ok found).2.get? entry named).2, ?_, rfl⟩
          rw [← (find_eq_ok found').2.entry_eq named' lives]
          simpa using busy

theorem get?_write {contents : Octets} (ok : disk.write directory p contents = .ok disk') :
    disk.get? (target directory p) ≠ some .directory ∧ ∀ location, disk'.get? location =
      if location = target directory p then some (.file contents) else disk.get? location := by
  obtain ⟨found, followed, named, _, _, noDirectory, rfl⟩ := write_eq_ok ok
  rw [← (find_eq_ok followed).1]
  exact ⟨noDirectory, get?_insert (Found.location_ne_nil named) disk _⟩

theorem get?_remove (ok : disk.remove directory p = .ok disk') :
    (∃ contents, disk.get? (target directory p) = some (.file contents)) ∧ ∀ location, disk'.get? location =
      if location = target directory p then none else disk.get? location := by
  obtain ⟨found, contents, followed, named, file, rfl⟩ := remove_eq_ok ok
  rw [← (find_eq_ok followed).1]
  exact ⟨⟨contents, file⟩, get?_erase (Found.location_ne_nil named) disk⟩

theorem get?_makeDirectory (ok : disk.makeDirectory directory p = .ok disk') :
    disk.get? (target directory p) = none ∧ ∀ location, disk'.get? location =
      if location = target directory p then some .directory else disk.get? location := by
  obtain ⟨found, followed, named, absent, rfl⟩ := makeDirectory_eq_ok ok
  rw [← (find_eq_ok followed).1]
  exact ⟨absent, get?_insert (Found.location_ne_nil named) disk _⟩

/-- A file that is moved leaves its location. -/
theorem get?_rename {q : Path} (ok : disk.rename directory p q = .ok disk') :
    ∃ contents, disk.get? (target directory p) = some (.file contents) ∧
      disk.get? (target directory q) ≠ some .directory ∧ ∀ location, disk'.get? location =
        if location = target directory q then some (.file contents)
        else if location = target directory p then none else disk.get? location := by
  obtain ⟨origin, goal, contents, followed, followed', named, named', _, _, file, noDirectory, rfl⟩ := rename_eq_ok ok
  rw [← (find_eq_ok followed).1, ← (find_eq_ok followed').1]
  refine ⟨contents, file, noDirectory, ?_⟩
  intro location
  rw [get?_insert (Found.location_ne_nil named'), get?_erase (Found.location_ne_nil named)]

theorem file?_write {contents : Octets} (ok : disk.write directory p contents = .ok disk') (location : DiskLocation) :
    disk'.file? location = if location = target directory p then some contents else disk.file? location := by
  unfold file?
  rw [(get?_write ok).2]
  by_cases same : location = target directory p <;> simp [same]

theorem file?_remove (ok : disk.remove directory p = .ok disk') (location : DiskLocation) :
    disk'.file? location = if location = target directory p then none else disk.file? location := by
  unfold file?
  rw [(get?_remove ok).2]
  by_cases same : location = target directory p <;> simp [same]

theorem file?_makeDirectory (ok : disk.makeDirectory directory p = .ok disk') (location : DiskLocation) :
    disk'.file? location = disk.file? location := by
  obtain ⟨absent, entries⟩ := get?_makeDirectory ok
  unfold file?
  rw [entries]
  by_cases same : location = target directory p
  · simp [same, absent]
  · simp [same]

theorem file?_rename {q : Path} (ok : disk.rename directory p q = .ok disk') :
    ∃ contents, disk.file? (target directory p) = some contents ∧ ∀ location, disk'.file? location =
      if location = target directory q then some contents
      else if location = target directory p then none else disk.file? location := by
  obtain ⟨contents, file, _, entries⟩ := get?_rename ok
  refine ⟨contents, file?_eq_some_iff.mpr file, ?_⟩
  intro location
  unfold file?
  rw [entries]
  by_cases moved : location = target directory q
  · simp [moved]
  · rw [if_neg moved, if_neg moved]
    by_cases left : location = target directory p <;> simp [left]

/-- The directory of the last name of a path is there. -/
structure Reaches (disk : Disk) (directory : Place) (p : Path) (front : List String) (place : Place) : Prop where
  walked : front.foldlM disk.enter (startOf directory p) = .ok place
  lives : place.lives = true

/-- All directories of the first disk are on the second. -/
def Keeps (disk disk' : Disk) : Prop :=
  ∀ location, disk.get? location = some .directory → disk'.get? location = some .directory

theorem keeps_write {contents : Octets} (ok : disk.write directory p contents = .ok disk') : disk.Keeps disk' := by
  obtain ⟨noDirectory, entries⟩ := get?_write ok
  intro location isDirectory
  have other : location ≠ target directory p := fun same => noDirectory (same ▸ isDirectory)
  rw [entries, if_neg other, isDirectory]

theorem keeps_remove (ok : disk.remove directory p = .ok disk') : disk.Keeps disk' := by
  obtain ⟨⟨contents, file⟩, entries⟩ := get?_remove ok
  intro location isDirectory
  have other : location ≠ target directory p := by
    rintro rfl
    rw [file] at isDirectory
    cases isDirectory
  rw [entries, if_neg other, isDirectory]

theorem keeps_makeDirectory (ok : disk.makeDirectory directory p = .ok disk') : disk.Keeps disk' := by
  intro location isDirectory
  rw [(get?_makeDirectory ok).2]
  split
  · rfl
  · exact isDirectory

theorem keeps_rename {q : Path} (ok : disk.rename directory p q = .ok disk') : disk.Keeps disk' := by
  obtain ⟨contents, file, noDirectory, entries⟩ := get?_rename ok
  intro location isDirectory
  have other : location ≠ target directory p := by
    rintro rfl
    rw [file] at isDirectory
    cases isDirectory
  have other' : location ≠ target directory q := fun same => noDirectory (same ▸ isDirectory)
  rw [entries, if_neg other', if_neg other, isDirectory]

theorem enter_mono (keeps : disk.Keeps disk') {place place' after : Place} {name : String}
    (same : place'.location = place.location) (alive : place.lives = true → place'.lives = true)
    (entered : disk.enter place name = .ok after) : ∃ after', disk'.enter place' name = .ok after' ∧
      after'.location = after.location ∧ (after.lives = true → after'.lives = true) := by
  simp only [enter, above, bind, Except.bind, throw, throwThe, MonadExceptOf.throw, pure, Except.pure] at entered ⊢
  split_ifs at entered ⊢ with dot dots
  · cases entered
    exact ⟨place', rfl, same, alive⟩
  · cases entered
    refine ⟨_, rfl, by rw [same], fun lives => ?_⟩
    rw [same]
    exact beq_iff_eq.mpr (keeps _ (beq_iff_eq.mp lives))
  · cases lives : place.lives with
    | false => simp [entryIn, lives] at entered
    | true =>
      simp only [entryIn, lives, alive lives, same, Bool.not_true, Bool.false_eq_true, if_false] at entered ⊢
      split_ifs at entered ⊢ with long
      cases entry : disk.get? (place.location ++ [name]) with
      | none => simp [entry] at entered
      | some found =>
        cases found with
        | file contents => simp [entry] at entered
        | directory =>
          simp only [entry] at entered
          cases entered
          simp only [keeps _ entry]
          exact ⟨_, rfl, rfl, fun _ => rfl⟩

/-- Steps through directories lead to the same place on a disk that has these directories and more. -/
theorem foldlM_enter_mono (keeps : disk.Keeps disk') {steps : List String} {place place' after : Place}
    (same : place'.location = place.location) (alive : place.lives = true → place'.lives = true)
    (walked : steps.foldlM disk.enter place = .ok after) : ∃ after', steps.foldlM disk'.enter place' = .ok after' ∧
      after'.location = after.location ∧ (after.lives = true → after'.lives = true) := by
  induction steps generalizing place place' with
  | nil =>
    cases walked
    exact ⟨place', rfl, same, alive⟩
  | cons step steps ih =>
    rw [List.foldlM_cons] at walked
    cases entered : disk.enter place step with
    | error e => simp [entered, bind, Except.bind] at walked
    | ok next =>
      rw [entered] at walked
      obtain ⟨next', entered', same', alive'⟩ := enter_mono keeps same alive entered
      obtain ⟨after', walked', located⟩ := ih same' alive' walked
      refine ⟨after', ?_, located⟩
      rw [List.foldlM_cons, entered']
      exact walked'

theorem Reaches.mono (keeps : disk.Keeps disk') {front : List String} {place : Place}
    (reaches : Reaches disk directory p front place) : ∃ place', Reaches disk' directory p front place' := by
  obtain ⟨place', walked, _, alive⟩ := foldlM_enter_mono keeps rfl id reaches.walked
  exact ⟨place', walked, alive reaches.lives⟩

/-- The directory of a file that was written is there, also afterwards. -/
theorem reaches_of_write {front : List String} {name : String} (steps : p.steps = front ++ [name]) {contents : Octets}
    (ok : disk.write directory p contents = .ok disk') : ∃ place, Reaches disk' directory p front place := by
  obtain ⟨found, followed, named, _, lives, _, _⟩ := write_eq_ok ok
  cases (find_eq_ok followed).2 with
  | directory none _ => exact absurd none named
  | @name front' name' steps' _ last walked inside =>
    obtain ⟨rfl, _⟩ := List.append_inj' (steps.symm.trans steps') rfl
    exact Reaches.mono (keeps_write ok) ⟨walked, lives⟩

theorem get?_of_enter_notFound {place : Place} (lives : place.lives = true) {name : String} (visible : name ≠ ".")
    (down : name ≠ "..") {e : FileError} (missing : disk.enter place name = .error e) (kind : e.kind = .notFound) :
    disk.get? (place.location ++ [name]) = none := by
  simp only [enter, entryIn, lives, beq_eq_false_iff_ne.mpr visible, beq_eq_false_iff_ne.mpr down, bind, Except.bind,
    Bool.not_true, Bool.false_eq_true, if_false, throw, throwThe, MonadExceptOf.throw, pure, Except.pure] at missing
  cases entry : disk.get? (place.location ++ [name]) with
  | none => rfl
  | some found =>
    rw [entry] at missing
    cases found <;> split_ifs at missing <;> cases missing <;> cases kind

/-- That a path cannot be found, though its directory is there, means that nothing stands at its location. -/
theorem file?_of_find_notFound {front : List String} {name : String} {place : Place}
    (steps : p.steps = front ++ [name]) (down : name ≠ "..") (reaches : Reaches disk directory p front place)
    {e : FileError} (missing : disk.find directory p = .error e) (kind : e.kind = .notFound) :
    disk.file? (target directory p) = none := by
  have start : startOf directory p = if p.isAbsolute = true then { location := [] } else directory := rfl
  have visible : ∀ step ∈ front, step ≠ "." := by
    intro step member
    exact visible_steps p step (by rw [steps]; exact List.mem_append_left _ member)
  have located : target directory p = place.location ++ [name] := by
    rw [target, steps, follow_name _ _ down, location_foldlM visible reaches.walked]
  have absent : disk.get? (place.location ++ [name]) = none → disk.file? (place.location ++ [name]) = none := by
    intro absent
    rw [file?, absent]
  have visible' : name ≠ "." := visible_steps p name (by simp [steps])
  rw [located]
  simp only [find, bind, Except.bind, pure, Except.pure, throw, throwThe, MonadExceptOf.throw] at missing
  rw [← start] at missing
  split_ifs at missing with empty
  · have none : p.steps = [] := by
      rw [Path.steps, String.isEmpty_iff.mp empty]
      rfl
    rw [none] at steps
    exact absurd steps.symm (by simp)
  · cases missing
    cases kind
  · cases missing
    cases kind
  cases ends : (segments p).getLast? with
  | none =>
    rw [ends] at missing
    cases missing
  | some last =>
    have steps' := steps_of_getLast? ends
    rw [ends] at missing
    dsimp only at missing
    rw [foldlM_enter] at missing
    rw [steps] at steps'
    by_cases dot : last = "."
    · -- The last name is followed by a dot, so it is entered like those before it.
      rw [if_pos dot, List.append_nil] at steps'
      rw [← steps', List.foldlM_append, reaches.walked] at missing
      refine absent (get?_of_enter_notFound reaches.lives visible' down (e := e) ?_ kind)
      cases entered : disk.enter place name with
      | error e' => simpa [entered, bind, Except.bind] using missing
      | ok after => simp [entered, bind, Except.bind, dot, pure, Except.pure] at missing
    · rw [if_neg dot] at steps'
      obtain ⟨rfl, same⟩ := List.append_inj' steps' rfl
      obtain rfl : name = last := by simpa using same
      rw [reaches.walked] at missing
      simp only [beq_eq_false_iff_ne.mpr visible', beq_eq_false_iff_ne.mpr down, Bool.false_eq_true, if_false,
        entryIn, reaches.lives, Bool.not_true] at missing
      split_ifs at missing
      cases missing
      cases kind

theorem file?_of_remove_notFound {front : List String} {name : String} {place : Place}
    (steps : p.steps = front ++ [name]) (down : name ≠ "..") (reaches : Reaches disk directory p front place)
    {e : FileError} (missing : disk.remove directory p = .error e) (kind : e.kind = .notFound) :
    disk.file? (target directory p) = none := by
  cases found : disk.find directory p with
  | error e' =>
    rw [remove, found] at missing
    cases missing
    exact file?_of_find_notFound steps down reaches found kind
  | ok found' =>
    obtain ⟨location, follows⟩ := find_eq_ok found
    simp only [remove, found, bind, Except.bind, throw, throwThe, MonadExceptOf.throw, pure, Except.pure] at missing
    cases entry : found'.entry with
    | none =>
      cases follows with
      | directory _ directory =>
        rw [directory] at entry
        cases entry
      | @name front' name' steps' _ last walked inside =>
        obtain ⟨rfl, _⟩ := List.append_inj' (steps.symm.trans steps') rfl
        obtain rfl := Except.ok.inj (walked.symm.trans reaches.walked)
        have absent := entryIn_eq_ok reaches.lives inside
        rw [← location, Found.location, last, Option.toList_some, file?, ← absent, entry]
    | some found'' =>
      rw [entry] at missing
      cases found'' with
      | directory =>
        cases missing
        cases kind
      | file contents =>
        dsimp only at missing
        split_ifs at missing
        cases missing
        cases kind

/-- Where a path without a last name can be followed, it is found to be a directory. -/
theorem find_nameless (nameless : ∀ front own, p.steps = front ++ [own] → own = "..") (spelled : p.text ≠ "")
    {place : Place} (walked : p.steps.foldlM disk.enter (startOf directory p) = .ok place) {e : FileError}
    (refused : disk.find directory p = .error e) : e.kind ≠ .notFound := by
  have start : startOf directory p = if p.isAbsolute = true then { location := [] } else directory := rfl
  simp only [find, bind, Except.bind, pure, Except.pure, throw, throwThe, MonadExceptOf.throw] at refused
  rw [← start] at refused
  split_ifs at refused with empty
  · exact absurd (String.isEmpty_iff.mp empty) spelled
  · cases refused
    decide
  · cases refused
    decide
  cases ends : (segments p).getLast? with
  | none =>
    rw [ends] at refused
    cases refused
  | some last =>
    have steps := steps_of_getLast? ends
    rw [ends] at refused
    dsimp only at refused
    rw [foldlM_enter] at refused
    by_cases dot : last = "."
    · rw [if_pos dot, List.append_nil] at steps
      rw [← steps, walked] at refused
      simp [dot] at refused
    · rw [if_neg dot] at steps
      obtain rfl := nameless _ _ steps
      rw [steps, List.foldlM_append] at walked
      cases front : ((segments p).dropLast.filter (· != ".")).foldlM disk.enter (startOf directory p) with
      | error e' => simp [front, bind, Except.bind] at walked
      | ok place' =>
        rw [front] at refused
        simp at refused

theorem remove_nameless (nameless : ∀ front own, p.steps = front ++ [own] → own = "..") (spelled : p.text ≠ "")
    {place : Place} (walked : p.steps.foldlM disk.enter (startOf directory p) = .ok place) {e : FileError}
    (refused : disk.remove directory p = .error e) : e.kind ≠ .notFound := by
  cases found : disk.find directory p with
  | error e' =>
    rw [remove, found] at refused
    cases refused
    exact find_nameless nameless spelled walked found
  | ok found' =>
    cases (find_eq_ok found).2 with
    | directory _ entry =>
      simp only [remove, found, bind, Except.bind, entry] at refused
      cases refused
      decide
    | name steps down => exact absurd (nameless _ _ steps) down

/-- A path that leads to a name leads there also on a disk with more directories. -/
theorem find_mono (keeps : disk.Keeps disk') {found : Found} (ok : disk.find directory p = .ok found)
    (named : found.name ≠ none) (lives : found.place.lives = true) :
    ∃ found', disk'.find directory p = .ok found' ∧ found'.slash = found.slash ∧
      found'.entry = disk'.get? found.location := by
  have start : startOf directory p = if p.isAbsolute = true then { location := [] } else directory := rfl
  simp only [find, bind, Except.bind, pure, Except.pure, throw, throwThe, MonadExceptOf.throw] at ok ⊢
  rw [← start] at ok ⊢
  split_ifs at ok ⊢
  cases ends : (segments p).getLast? with
  | none =>
    rw [ends] at ok
    cases ok
    exact absurd rfl named
  | some last =>
    rw [ends] at ok
    dsimp only at ok ⊢
    cases walked : (segments p).dropLast.foldlM disk.enter (startOf directory p) with
    | error e => simp [walked] at ok
    | ok place =>
      obtain ⟨place', walked', same, alive⟩ := foldlM_enter_mono keeps rfl id walked
      rw [walked] at ok
      rw [walked']
      dsimp only at ok ⊢
      split_ifs at ok ⊢ with dot dots
      · cases ok
        exact absurd rfl named
      · cases ok
        exact absurd rfl named
      · simp only [entryIn] at ok ⊢
        split_ifs at ok with dead long
        · cases ok
          rw [show place.lives = true from lives] at dead
          cases dead
        · cases ok
          have alive' : place'.lives = true := alive lives
          simp only [alive', same, Bool.not_true, Bool.false_eq_true, if_false, long]
          exact ⟨_, rfl, rfl, rfl⟩

theorem read_of_find {contents : Octets} {found : Found} (ok : disk.find directory p = .ok found)
    (file : found.entry = some (.file contents)) (slash : found.slash = false) :
    disk.read directory p = .ok contents := by
  rw [read_eq_ok_iff, stat, ok]
  simp [bind, Except.bind, file, slash, pure, Except.pure]

/-- A file that can be read can be read as long as it stays and no directory goes. -/
theorem read_mono (keeps : disk.Keeps disk') {contents : Octets} (ok : disk.read directory p = .ok contents)
    (same : disk'.get? (target directory p) = disk.get? (target directory p)) :
    disk'.read directory p = .ok contents := by
  obtain ⟨found, followed, file, slash⟩ := read_eq_ok ok
  obtain ⟨location, follows⟩ := find_eq_ok followed
  have named := Found.name_ne_none followed file
  obtain ⟨lives, present⟩ := follows.get? file named
  obtain ⟨found', followed', slash', entry⟩ := find_mono keeps followed named lives
  refine read_of_find followed' ?_ (slash'.trans slash)
  rw [entry, location, same, ← location, present]

/-- What was moved can be read at its new place. -/
theorem read_rename {q : Path} (ok : disk.rename directory p q = .ok disk') {contents : Octets}
    (file : disk.get? (target directory p) = some (.file contents)) : disk'.read directory q = .ok contents := by
  obtain ⟨_, goal, _, _, followed, _, named, slash, lives, _⟩ := rename_eq_ok ok
  obtain ⟨moved, present, _, entries⟩ := get?_rename ok
  obtain ⟨found, reached, slash', entry⟩ := find_mono (keeps_rename ok) followed named lives
  refine read_of_find reached ?_ (slash'.trans slash)
  rw [entry, (find_eq_ok followed).1, entries, if_pos rfl, ← present, file]

end Disk

end SourceCoverage
