import SourceCoverage.Proofs.Workspace.Disk

namespace SourceCoverage

open SourceCoverage.Path

/-- The location of a name in a directory. -/
def Place.child (place : Place) (name : String) : DiskLocation := place.location ++ [name]

theorem Place.child_ne_nil (place : Place) (name : String) : place.child name ≠ [] := by
  simp [child]

theorem Place.child_inj {place : Place} {name other : String} :
    place.child name = place.child other ↔ name = other := by
  simp [child]

theorem Found.location_name (place : Place) (name : String) (entry : Option DiskEntry) (slash : Bool) :
    Found.location ⟨place, some name, entry, slash⟩ = place.child name := rfl

namespace Disk

variable {disk disk' : Disk} {directory place : Place} {p : Path} {name : String}

/-- What is wrong with the spelling of a path. -/
def objection? (p : Path) : Option FileError :=
  if p.text.isEmpty then some .notFound
  else if p.text.toList.contains (Char.ofNat 0) then some .embeddedNul
  else if p.text.utf8ByteSize > longestPath then some .nameTooLong
  else none

/-- The last segment of a path, looked up in the directory to which the others lead. -/
def arrive (disk : Disk) (place : Place) (last : String) (slash : Bool) : Except FileError Found :=
  if last = "." then .ok ⟨place, none, some .directory, slash⟩
  else if last = ".." then .ok ⟨disk.above place, none, some .directory, slash⟩
  else (disk.entryIn place last).map fun entry => ⟨place, some last, entry, slash⟩

theorem utf8ByteSize_of_prefix {front : List Char} {text : String} (inside : front <+: text.toList) :
    (String.ofList front).utf8ByteSize ≤ text.utf8ByteSize := by
  obtain ⟨rest, whole⟩ := inside
  rw [← String.ofList_toList (s := text), ← whole, String.ofList_append, String.utf8ByteSize_append]
  exact Nat.le_add_right _ _

/-- A path that is not empty, has no zeros and is not too long is spelled well. -/
theorem objection?_eq_none_iff : objection? p = none ↔
    p.text ≠ "" ∧ Char.ofNat 0 ∉ p.text.toList ∧ p.text.utf8ByteSize ≤ longestPath := by
  unfold objection?
  split_ifs with blank zero long
  · simp_all
  · simp_all
  · simp [Nat.not_le.mpr long]
  · exact iff_of_true rfl ⟨by simpa using blank, by simpa using zero, Nat.le_of_not_gt long⟩

/-- A path that is spelled like the beginning of another is no worse. -/
theorem objection?_of_prefix {q : Path} (short : p.text.toList <+: q.text.toList) (spelled : p.text ≠ "")
    (accepted : objection? q = none) : objection? p = none := by
  have size := utf8ByteSize_of_prefix short
  rw [String.ofList_toList] at size
  obtain ⟨_, whole, enough⟩ := objection?_eq_none_iff.mp accepted
  exact objection?_eq_none_iff.mpr ⟨spelled, fun inside => whole (short.subset inside), by omega⟩

theorem find_of_objection {e : FileError} (wrong : objection? p = some e) : disk.find directory p = .error e := by
  unfold objection? at wrong
  simp only [find, bind, Except.bind, pure, Except.pure, throw, throwThe, MonadExceptOf.throw]
  split_ifs at wrong ⊢ <;> cases wrong <;> rfl

theorem find_of_segments_eq_nil (spelled : objection? p = none) (empty : segments p = []) :
    disk.find directory p = .ok ⟨startOf directory p, none, some .directory, p.text.endsWith "/"⟩ := by
  have start : startOf directory p = if p.isAbsolute = true then { location := [] } else directory := rfl
  unfold objection? at spelled
  simp only [find, bind, Except.bind, pure, Except.pure, throw, throwThe, MonadExceptOf.throw, empty, ← start]
  split_ifs at spelled with blank zero long
  rw [if_neg blank, if_neg zero, if_neg long]
  rfl

theorem find_of_getLast? {last : String} (spelled : objection? p = none) (ends : (segments p).getLast? = some last) :
    disk.find directory p = ((segments p).dropLast.filter (· != ".")).foldlM disk.enter (startOf directory p) >>=
      fun place => disk.arrive place last (p.text.endsWith "/") := by
  have start : startOf directory p = if p.isAbsolute = true then { location := [] } else directory := rfl
  unfold objection? at spelled
  rw [← foldlM_enter]
  simp only [find, bind, Except.bind, pure, Except.pure, throw, throwThe, MonadExceptOf.throw, ends, ← start]
  generalize (segments p).dropLast.foldlM disk.enter (startOf directory p) = walked
  split_ifs at spelled with blank zero long
  rw [if_neg blank, if_neg zero, if_neg long]
  cases walked with
  | error e => rfl
  | ok place =>
    simp only [arrive, beq_iff_eq]
    split_ifs
    · rfl
    · rfl
    · cases disk.entryIn place last <;> rfl

/-- The locations that steps come to. -/
def passed (location : DiskLocation) : List String → List DiskLocation
  | [] => []
  | step :: steps => follow location [step] :: passed (follow location [step]) steps

theorem passed_append (location : DiskLocation) (front back : List String) :
    passed location (front ++ back) = passed location front ++ passed (follow location front) back := by
  induction front generalizing location with
  | nil => rfl
  | cons step front ih => exact congrArg (follow location [step] :: ·) (ih _)

/-- The locations on the way of a path. -/
def way (directory : Place) (p : Path) : List DiskLocation := passed (startOf directory p).location p.steps

/-- What is asked of a disk about the step from a place. -/
theorem lookup_congr (same : disk'.get? (follow place.location [name]) = disk.get? (follow place.location [name])) :
    (name = ".." → disk'.above place = disk.above place) ∧
      (name ≠ ".." → disk'.entryIn place name = disk.entryIn place name) := by
  constructor
  · rintro rfl
    exact congrArg (fun entry => (⟨place.location.dropLast, entry == some .directory⟩ : Place)) same
  · intro down
    rw [show follow place.location [name] = place.location ++ [name] from follow_name _ [] down] at same
    rw [entryIn, same, entryIn]

theorem enter_congr (same : disk'.get? (follow place.location [name]) = disk.get? (follow place.location [name])) :
    disk'.enter place name = disk.enter place name := by
  obtain ⟨up, down⟩ := lookup_congr same
  unfold enter
  by_cases dots : name = ".."
  · rw [up dots]
    simp [dots]
  · rw [down dots]
    simp [dots]

theorem foldlM_enter_congr {steps : List String} (visible : ∀ step ∈ steps, step ≠ ".")
    (same : ∀ location ∈ passed place.location steps, disk'.get? location = disk.get? location) :
    steps.foldlM disk'.enter place = steps.foldlM disk.enter place := by
  induction steps generalizing place with
  | nil => rfl
  | cons step steps ih =>
    rw [List.foldlM_cons, List.foldlM_cons, enter_congr (same _ List.mem_cons_self)]
    cases entered : disk.enter place step with
    | error e => rfl
    | ok next =>
      have location : next.location = follow place.location [step] :=
        location_enter (visible step List.mem_cons_self) entered
      refine ih (fun s member => visible s (List.mem_cons_of_mem _ member)) ?_
      rw [location]
      exact fun l member => same l (List.mem_cons_of_mem _ member)

/-- A path leads to the same on two disks that do not differ on its way. -/
theorem find_congr (same : ∀ location ∈ way directory p, disk'.get? location = disk.get? location) :
    disk'.find directory p = disk.find directory p := by
  cases spelled : objection? p with
  | some e => rw [find_of_objection spelled, find_of_objection spelled]
  | none =>
  cases ends : (segments p).getLast? with
  | none =>
    have empty := List.getLast?_eq_none_iff.mp ends
    rw [find_of_segments_eq_nil spelled empty, find_of_segments_eq_nil spelled empty]
  | some last =>
    have steps := steps_of_getLast? ends
    rw [find_of_getLast? spelled ends, find_of_getLast? spelled ends]
    have visible : ∀ step ∈ (segments p).dropLast.filter (· != "."), step ≠ "." := by simp
    generalize (segments p).dropLast.filter (· != ".") = front at steps visible
    rw [way, steps, passed_append] at same
    rw [foldlM_enter_congr visible fun l member => same l (List.mem_append_left _ member)]
    cases walked : front.foldlM disk.enter (startOf directory p) with
    | error e => rfl
    | ok place =>
      change disk'.arrive place last _ = disk.arrive place last _
      unfold arrive
      by_cases dot : last = "."
      · rw [if_pos dot, if_pos dot]
      · rw [if_neg dot] at same
        have asked := same _ (List.mem_append_right _ List.mem_cons_self)
        rw [← location_foldlM visible walked] at asked
        obtain ⟨up, down⟩ := lookup_congr asked
        by_cases dots : last = ".."
        · rw [up dots, if_pos dots, if_pos dots]
        · rw [down dots, if_neg dots, if_neg dots]

/-- A directory is where all steps of a path can be taken. -/
theorem stat_eq_directory_iff : disk.stat directory p = .ok .directory ↔
    objection? p = none ∧ ∃ place, p.steps.foldlM disk.enter (startOf directory p) = .ok place := by
  cases spelled : objection? p with
  | some e => simp [stat, find_of_objection spelled, bind, Except.bind]
  | none =>
  simp only [true_and]
  cases ends : (segments p).getLast? with
  | none =>
    have empty := List.getLast?_eq_none_iff.mp ends
    have steps : p.steps = [] := by rw [steps_eq, empty]; rfl
    rw [steps]
    simp [stat, find_of_segments_eq_nil spelled empty, bind, Except.bind, pure, Except.pure]
  | some last =>
    rw [stat, find_of_getLast? spelled ends, steps_of_getLast? ends, List.foldlM_append]
    generalize (segments p).dropLast.filter (· != ".") = front
    cases front.foldlM disk.enter (startOf directory p) with
    | error e => simp [bind, Except.bind]
    | ok place =>
      simp only [bind, Except.bind, arrive]
      by_cases dot : last = "."
      · simp [dot, pure, Except.pure]
      by_cases dots : last = ".."
      · simp [dots, pure, Except.pure, enter, bind, Except.bind]
      · simp only [dot, dots, if_false, List.foldlM_cons, List.foldlM_nil, enter, beq_iff_eq, bind, Except.bind]
        rcases disk.entryIn place last with e | (_ | _ | _)
        · simp [Except.map]
        · simp [Except.map, throw, throwThe, MonadExceptOf.throw]
        · cases p.text.endsWith "/" <;> simp [Except.map, throw, throwThe, MonadExceptOf.throw, pure, Except.pure]
        · simp [Except.map, pure, Except.pure]

theorem read_congr (same : ∀ location ∈ way directory p, disk'.get? location = disk.get? location) :
    disk'.read directory p = disk.read directory p := by
  unfold read stat
  rw [find_congr same]

/-- Two disks have their directories at the same locations. -/
def SameDirectories (disk disk' : Disk) : Prop :=
  ∀ location, disk'.get? location = some .directory ↔ disk.get? location = some .directory

theorem SameDirectories.trans {disk'' : Disk} (first : disk.SameDirectories disk')
    (second : disk'.SameDirectories disk'') :
    disk.SameDirectories disk'' := fun location => (second location).trans (first location)

theorem SameDirectories.enter (same : disk.SameDirectories disk') {after : Place}
    (entered : disk.enter place name = .ok after) : disk'.enter place name = .ok after := by
  have above : disk'.above place = disk.above place := by
    have lives : (disk'.get? place.location.dropLast == some .directory) =
        (disk.get? place.location.dropLast == some .directory) := by
      rw [Bool.eq_iff_iff, beq_iff_eq, beq_iff_eq]
      exact same _
    exact congrArg (Place.mk place.location.dropLast) lives
  simp only [Disk.enter, bind, Except.bind, throw, throwThe, MonadExceptOf.throw, pure, Except.pure, above]
    at entered ⊢
  split_ifs at entered ⊢ with dot dots
  · exact entered
  · exact entered
  · simp only [entryIn] at entered ⊢
    split_ifs at entered ⊢
    cases entry : disk.get? (place.location ++ [name]) with
    | none => simp [entry] at entered
    | some found =>
      cases found with
      | file contents => simp [entry] at entered
      | directory =>
        rw [entry] at entered
        rw [(same _).mpr entry]
        exact entered

/-- Steps that can be taken lead to the same place as long as no directory comes or goes. -/
theorem SameDirectories.foldlM_enter (same : disk.SameDirectories disk') {steps : List String} {after : Place}
    (walked : steps.foldlM disk.enter place = .ok after) : steps.foldlM disk'.enter place = .ok after := by
  induction steps generalizing place with
  | nil => exact walked
  | cons step steps ih =>
    rw [List.foldlM_cons] at walked ⊢
    cases entered : disk.enter place step with
    | error e => simp [entered, bind, Except.bind] at walked
    | ok next =>
      rw [entered] at walked
      rw [same.enter entered]
      exact ih walked

theorem SameDirectories.stat (same : disk.SameDirectories disk') (there : disk.stat directory p = .ok .directory) :
    disk'.stat directory p = .ok .directory := by
  obtain ⟨spelled, place, walked⟩ := stat_eq_directory_iff.mp there
  exact stat_eq_directory_iff.mpr ⟨spelled, place, same.foldlM_enter walked⟩

theorem sameDirectories_insert {location : DiskLocation} (below : location ≠ [])
    (free : disk.get? location ≠ some .directory) (contents : Octets) :
    disk.SameDirectories (disk.insert location (.file contents)) := by
  intro other
  rw [get?_insert below]
  split_ifs with here
  · simp [here, free]
  · rfl

theorem sameDirectories_erase {location : DiskLocation} (below : location ≠ [])
    (free : disk.get? location ≠ some .directory) : disk.SameDirectories (disk.erase location) := by
  intro other
  rw [get?_erase below]
  split_ifs with here
  · simp [here, free]
  · rfl

/-- A path ends in a name, in a directory that can be reached. -/
structure Names (disk : Disk) (directory : Place) (p : Path) (place : Place) (name : String) : Prop where
  last : (segments p).getLast? = some name
  visible : name ≠ "."
  down : name ≠ ".."
  bare : p.text.endsWith "/" = false
  walked : p.steps.dropLast.foldlM disk.enter (startOf directory p) = .ok place

/-- What a directory holds under a name. -/
def held (disk : Disk) (place : Place) (name : String) : Option DiskEntry :=
  if place.lives then disk.get? (place.child name) else none

theorem held_eq_none (absent : disk.get? (place.child name) = none) : disk.held place name = none := by
  rw [held, absent, ite_self]

/-- Why a directory does not even look up a name. -/
def refusal? (place : Place) (p : Path) (name : String) : Option FileError :=
  match objection? p with
  | some e => some e
  | none => if place.lives && name.utf8ByteSize > longestName then some .nameTooLong else none

theorem refusal?_eq_none (accepted : objection? p = none) (short : name.utf8ByteSize ≤ longestName) :
    refusal? place p name = none := by
  have enough : ¬name.utf8ByteSize > longestName := Nat.not_lt.mpr short
  simp [refusal?, accepted, enough]

/-- Why no file can be put under a name. -/
@[irreducible] def fault? (disk : Disk) (place : Place) (p : Path) (name : String) : Option FileError :=
  match refusal? place p name with
  | some e => some e
  | none =>
    if !place.lives then some .notFound
    else if disk.get? (place.child name) = some .directory then some .isADirectory
    else none

namespace Names

variable (names : Names disk directory p place name)

include names

theorem steps : p.steps = p.steps.dropLast ++ [name] := by
  have steps := steps_of_getLast? names.last
  rw [if_neg names.visible] at steps
  rw [steps, List.dropLast_concat]

theorem target : target directory p = place.child name := by
  have visible : ∀ step ∈ p.steps.dropLast, step ≠ "." :=
    fun step member => visible_steps p step ((List.dropLast_sublist _).subset member)
  rw [Disk.target, names.steps, follow_name _ _ names.down, Place.child, location_foldlM visible names.walked]

theorem of_sameDirectories (same : disk.SameDirectories disk') : Names disk' directory p place name :=
  { names with walked := same.foldlM_enter names.walked }

/-- A path with a last name is refused for its spelling, not because nothing is found. -/
theorem kind_of_refusal {e : FileError} (refused : refusal? place p name = some e) : e.kind ≠ .notFound := by
  have spelled : p.text.isEmpty ≠ true := by
    intro empty
    have ends := names.last
    rw [segments, String.isEmpty_iff.mp empty] at ends
    cases ends
  unfold refusal? objection? at refused
  split at refused
  · rename_i wrong
    rw [if_neg spelled] at wrong
    split_ifs at wrong <;> cases wrong <;> cases refused <;> decide
  · split_ifs at refused
    cases refused
    decide

theorem find : disk.find directory p = match refusal? place p name with
    | some e => .error e
    | none => .ok ⟨place, some name, disk.held place name, false⟩ := by
  unfold refusal?
  cases spelled : objection? p with
  | some e => exact find_of_objection spelled
  | none =>
    have front : (segments p).dropLast.filter (· != ".") = p.steps.dropLast := by
      rw [steps_of_getLast? names.last, if_neg names.visible, List.dropLast_concat]
    rw [find_of_getLast? spelled names.last, front, names.walked]
    simp only [bind, Except.bind, arrive, names.visible, names.down, if_false, entryIn, names.bare, held, Place.child]
    cases place.lives
    · rfl
    · by_cases long : name.utf8ByteSize > longestName <;> simp [long, Except.map]

theorem stat : disk.stat directory p = match refusal? place p name, disk.held place name with
    | some e, _ => .error e
    | none, none => .error .notFound
    | none, some entry => .ok entry := by
  rw [Disk.stat, names.find]
  cases refusal? place p name with
  | some e => rfl
  | none => rcases disk.held place name with _ | _ | _ <;> rfl

/-- Where nothing stands, only the spelling of a path can be refused. -/
theorem refusal?_eq_of_stat {q : Path} {other : String} (names' : Names disk directory q place other)
    (free : disk.get? (place.child name) = none) (free' : disk.get? (place.child other) = none)
    (same : disk.stat directory p = disk.stat directory q) : refusal? place p name = refusal? place q other := by
  rw [names.stat, names'.stat, held_eq_none free, held_eq_none free'] at same
  cases refused : refusal? place p name with
  | some e =>
    cases refused' : refusal? place q other with
    | some e' =>
      rw [refused, refused'] at same
      cases same
      rfl
    | none =>
      rw [refused, refused'] at same
      cases same
      exact absurd rfl (names.kind_of_refusal refused)
  | none =>
    cases refused' : refusal? place q other with
    | some e' =>
      rw [refused, refused'] at same
      cases same
      exact absurd rfl (names'.kind_of_refusal refused')
    | none => rfl

theorem write (contents : Octets) : disk.write directory p contents = match disk.fault? place p name with
    | some e => .error e
    | none => .ok (disk.insert (place.child name) (.file contents)) := by
  rw [Disk.write, names.find, fault?]
  cases refusal? place p name with
  | some e => rfl
  | none =>
    cases lives : place.lives with
    | false => simp [held, lives, bind, Except.bind, throw, throwThe, MonadExceptOf.throw]
    | true =>
      simp only [held, lives, bind, Except.bind]
      by_cases busy : disk.get? (place.child name) = some .directory
      · simp [busy, throw, throwThe, MonadExceptOf.throw]
      · simp [busy, pure, Except.pure, Found.location_name]

theorem remove : disk.remove directory p = match refusal? place p name, disk.held place name with
    | some e, _ => .error e
    | none, none => .error .notFound
    | none, some .directory => .error .isADirectory
    | none, some (.file _) => .ok (disk.erase (place.child name)) := by
  rw [Disk.remove, names.find]
  cases refusal? place p name with
  | some e => rfl
  | none => rcases disk.held place name with _ | _ | _ <;> rfl

theorem rename {q : Path} {goal : String} (names' : Names disk directory q place goal)
    (clear : refusal? place p name = none) {contents : Octets}
    (stored : disk.held place name = some (.file contents)) :
    disk.rename directory p q = match disk.fault? place q goal with
      | some e => .error e
      | none => .ok ((disk.erase (place.child name)).insert (place.child goal) (.file contents)) := by
  rw [Disk.rename, names.find, names'.find, fault?, clear, stored]
  cases refusal? place q goal with
  | some e => rfl
  | none =>
    have lives : place.lives = true := by
      unfold held at stored
      split_ifs at stored with lives
      exact lives
    simp only [held, bind, Except.bind, lives]
    by_cases busy : disk.get? (place.child goal) = some .directory
    · simp [busy, throw, throwThe, MonadExceptOf.throw]
    · simp [busy, pure, Except.pure, Found.location_name]

end Names

end Disk

end SourceCoverage
