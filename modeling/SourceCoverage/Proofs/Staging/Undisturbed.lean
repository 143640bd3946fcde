import SourceCoverage.Proofs.Staging
import SourceCoverage.Proofs.Workspace.Lookup

namespace SourceCoverage

open SourceCoverage.Path

/-- The name under which contents wait for a name. -/
def Staging.waiting (name tag : String) : String := name ++ ".tmp." ++ tag

namespace Disk

variable {disk other : Disk} {directory place : Place} {p : Path} {name : String}

theorem segments_join (p : Path) (noSlash : '/' ∉ name.toList) (named : name ≠ "") :
    segments (p.join ⟨name⟩) = segments p ++ [name] := by
  have single : (parts name.toList).filter (! ·.isEmpty) = [name.toList] := by
    rw [parts_of_notMem noSlash]
    simp [named]
  unfold segments
  rcases join_cases p noSlash with ⟨empty, text⟩ | ⟨_, front, text, before⟩
  · rw [text, single, empty]
    simp [parts]
  · rw [text, parts_append_slash, List.filter_append, single]
    rcases before with same | closed
    · simp [same]
    · rw [closed, parts_append_slash]
      simp [parts]

/-- A name behind the path of a directory is looked up in it. -/
theorem names_join (walked : p.steps.foldlM disk.enter (startOf directory p) = .ok place)
    (noSlash : '/' ∉ name.toList) {c : Char} (inside : c ∈ name.toList) (noDot : c ≠ '.') :
    Names disk directory (p.join ⟨name⟩) place name := by
  obtain ⟨steps, down, absolute⟩ := Staging.steps_join (p := p) noSlash inside noDot
  have named : name ≠ "" := by
    rintro rfl
    simp at inside
  refine ⟨?_, ?_, down, endsWith_join p noSlash named, ?_⟩
  · rw [segments_join p noSlash named, List.getLast?_concat]
  · rintro rfl
    simp at inside
    exact noDot inside
  · rw [steps, List.dropLast_concat, startOf, absolute]
    exact walked

/-- A name behind the path of a directory is spelled well if both of them are, and if they are short enough
together. -/
theorem objection?_join (noSlash : '/' ∉ name.toList) (named : name ≠ "") (whole : Char.ofNat 0 ∉ p.text.toList)
    (whole' : Char.ofNat 0 ∉ name.toList) (short : p.text.utf8ByteSize + 1 + name.utf8ByteSize ≤ longestPath) :
    objection? (p.join ⟨name⟩) = none := by
  rcases join_cases p noSlash with ⟨empty, text⟩ | ⟨present, front, text, before⟩
  · refine objection?_eq_none_iff.mpr ⟨?_, ?_, ?_⟩ <;> rw [text]
    · exact named
    · exact whole'
    · omega
  have spelled : (p.join ⟨name⟩).text = String.ofList front ++ "/" ++ name := by
    rw [← String.toList_inj, text]
    simp
  have inside : front <+: p.text.toList := by
    rcases before with same | closed
    · exact same ▸ List.prefix_rfl
    · exact ⟨_, closed.symm⟩
  have size := utf8ByteSize_of_prefix inside
  refine objection?_eq_none_iff.mpr ⟨?_, ?_, ?_⟩
  · rw [spelled]
    exact fun empty => named (by simpa using congrArg String.toList empty)
  · rw [text]
    simp only [List.mem_append, List.mem_cons, not_or]
    exact ⟨fun zero => whole (inside.subset zero), by decide, whole'⟩
  · rw [spelled, String.utf8ByteSize_append, String.utf8ByteSize_append, show "/".utf8ByteSize = 1 by decide]
    omega

/-- A file waits in the directory of its target. -/
theorem Names.temporary (names : Names disk directory p place name) {tag : String} (isTag : Workspace.IsTag tag) :
    Names disk directory (Staging.temporary p tag) place (Staging.waiting name tag) := by
  rcases fileName?_cases p with ⟨front, own, fileName, steps, down⟩ | ⟨_, nameless⟩
  · have whole : p.steps = front.map String.ofList ++ [own] := by simp [Path.steps, steps]
    obtain ⟨above, same⟩ := List.append_inj' (whole.symm.trans names.steps) rfl
    obtain rfl : own = name := by simpa using same
    obtain ⟨parent, parent?, upper, absolute⟩ := parent?_eq_some steps
    have waits : Staging.temporary p tag = parent.join ⟨own ++ ".tmp." ++ tag⟩ := by
      simp [Staging.temporary, withFileName, fileName, parent?]
    have noSlash : '/' ∉ (own ++ ".tmp." ++ tag).toList := by
      simp only [String.toList_append, List.mem_append, not_or]
      exact ⟨⟨slash_notMem_fileName fileName, by decide⟩, Staging.notMem_of_isTag (by decide) (by decide) isTag⟩
    rw [waits]
    refine names_join ?_ noSlash (c := 't') (by simp) (by decide)
    rw [Path.steps, upper, above, startOf, absolute]
    exact names.walked
  · have steps := names.steps
    rcases nameless with none | ⟨front, last⟩
    · simp [Path.steps, none] at steps
    · rw [Path.steps, last, List.map_append] at steps
      exact absurd (List.cons.inj (List.append_inj' steps rfl).2).1.symm names.down

theorem Names.remove_of_absent (names : Names disk directory p place name)
    (absent : disk.get? (place.child name) = none) : ∃ e, disk.remove directory p = .error e := by
  rw [names.remove, held_eq_none absent]
  cases refusal? place p name <;> exact ⟨_, rfl⟩

/-- Where nothing stands, nothing is removed. -/
theorem erase_of_get?_eq_none {location : DiskLocation} (below : location ≠ []) (absent : disk.get? location = none) :
    disk.erase location = disk := by
  have kept : ∀ entries : List (DiskLocation × DiskEntry), entries.lookup location = none →
      entries.filter (·.1 != location) = entries := by
    intro entries missing
    refine List.filter_eq_self.mpr fun entry member => ?_
    exact bne_iff_ne.mpr (Ne.symm (bne_iff_ne.mp (List.lookup_eq_none_iff.mp missing entry member)))
  rw [Disk.get?, if_neg (by simpa using below)] at absent
  rw [erase, kept _ absent]

theorem fault?_congr (same : other.get? (place.child name) = disk.get? (place.child name)) :
    other.fault? place p name = disk.fault? place p name := by
  rw [fault?, same, fault?]

/-- Where a name of a directory is free, it can only be too long. -/
theorem fault?_join (noSlash : '/' ∉ name.toList) (named : name ≠ "") (whole : Char.ofNat 0 ∉ p.text.toList)
    (whole' : Char.ofNat 0 ∉ name.toList) (short : p.text.utf8ByteSize + 1 + name.utf8ByteSize ≤ longestPath)
    (lives : place.lives = true) (free : disk.get? (place.child name) = none) :
    disk.fault? place (p.join ⟨name⟩) name =
      if name.utf8ByteSize > longestName then some .nameTooLong else none := by
  rw [fault?, refusal?, objection?_join noSlash named whole whole' short, free]
  by_cases long : name.utf8ByteSize > longestName <;> simp [long, lives]

theorem fault?_eq_none_iff : disk.fault? place p name = none ↔
    refusal? place p name = none ∧ place.lives = true ∧ disk.get? (place.child name) ≠ some .directory := by
  unfold fault?
  cases refusal? place p name with
  | some e => simp
  | none => cases place.lives <;> simp

end Disk

namespace Workspace

variable {α β ε δ : Type} {w after : Workspace}

/-- After a failure, an attempt does not go on. -/
theorem run_attempt_bind_error {attempt : Attempt ε α} {next : α → Attempt ε β} {e : ε}
    (failed : w.run attempt.outcome = (.error e, after)) : w.run (attempt >>= next).outcome = (.error e, after) := by
  unfold Attempt.outcome at failed ⊢
  rw [ExceptT.run_bind, run_bind, failed]
  rfl

theorem run_mapError {f : ε → δ} {attempt : Attempt ε α} {result : Except ε α}
    (ends : w.run attempt.outcome = (result, after)) :
    w.run (attempt.mapError f).outcome = (result.mapError f, after) := by
  have mapped : (attempt.mapError f).outcome = attempt.outcome >>= fun outcome => pure (outcome.mapError f) := rfl
  rw [mapped, run_bind, ends]
  rfl

theorem run_tried {attempt : Attempt ε α} {result : Except ε α} (ends : w.run attempt.outcome = (result, after)) :
    w.run (attempt.tried : Attempt δ _).outcome = (.ok result, after) := by
  rw [show (attempt.tried : Attempt δ _) = liftM attempt.outcome from rfl, run_lift, ends]

theorem updated_error {e : FileError} {result : Except FileError Disk} (refused : result = .error e) :
    w.updated result = (.error e, w) := by
  rw [refused]
  rfl

theorem updated_ok {disk : Disk} {result : Except FileError Disk} (done : result = .ok disk) :
    w.updated result = (.ok (), { w with disk }) := by
  rw [done]
  rfl

theorem run_write (w : Workspace) (p : Path) (contents : Octets) :
    w.run (Script.perform (.write p contents)) = w.updated (w.disk.write w.directory p contents) := rfl

theorem run_rename (w : Workspace) (p q : Path) :
    w.run (Script.perform (.rename p q)) = w.updated (w.disk.rename w.directory p q) := rfl

theorem run_remove (w : Workspace) (p : Path) :
    w.run (Script.perform (.remove p)) = w.updated (w.disk.remove w.directory p) := rfl

/-- The tag that is given after `k` others. -/
@[irreducible] def tagOf (k : Nat) : String := s!"1.0.{k}"

theorem isTag_tagOf (k : Nat) : IsTag (tagOf k) := by
  rw [tagOf]
  exact ⟨1, 0, k, rfl⟩

theorem tagOf_injective {k l : Nat} (same : tagOf k = tagOf l) : k = l := by
  have spelled (k : Nat) : tagOf k = "1.0." ++ k.repr := by
    rw [tagOf]
    rfl
  have digits : k.repr = l.repr := (String.append_right_inj "1.0.").mp (by rw [← spelled, ← spelled, same])
  rw [← Nat.ofDigitChars_ten_toDigits (n := k), ← Nat.toList_repr, digits, Nat.toList_repr,
    Nat.ofDigitChars_ten_toDigits]

/-- After a tag has been given. -/
def tagged (w : Workspace) : Workspace := { w with tags := w.tags + 1 }

/-- With a file at a location. -/
def having (w : Workspace) (location : DiskLocation) (contents : Octets) : Workspace :=
  { w with disk := w.disk.insert location (.file contents) }

/-- With nothing at a location. -/
def without (w : Workspace) (location : DiskLocation) : Workspace := { w with disk := w.disk.erase location }

theorem get?_having {place : Place} {name : String} (w : Workspace) (contents : Octets) (other : DiskLocation) :
    (w.having (place.child name) contents).disk.get? other =
      if other = place.child name then some (.file contents) else w.disk.get? other :=
  Disk.get?_insert (place.child_ne_nil name) _ _ _

theorem get?_without {place : Place} {name : String} (w : Workspace) (other : DiskLocation) :
    (w.without (place.child name)).disk.get? other =
      if other = place.child name then none else w.disk.get? other :=
  Disk.get?_erase (place.child_ne_nil name) _ _

/-- What is put where nothing stood and removed again has left no trace. -/
theorem without_having {location : DiskLocation} (below : location ≠ []) (absent : w.disk.get? location = none)
    (contents : Octets) : (w.having location contents).without location = w := by
  have gone : (w.disk.insert location (.file contents)).erase location = (w.disk.erase location).erase location := by
    simp [Disk.insert, Disk.erase]
  rw [Disk.erase_of_get?_eq_none below absent, Disk.erase_of_get?_eq_none below absent] at gone
  exact congrArg (fun disk => { w with disk }) gone

/-- With contents under the name where they wait, which has the next tag. -/
def holding (w : Workspace) (place : Place) (name : String) (contents : Octets) : Workspace :=
  w.tagged.having (place.child (Staging.waiting name (tagOf w.tags))) contents

@[simp] theorem tags_holding (w : Workspace) (place : Place) (name : String) (contents : Octets) :
    (w.holding place name contents).tags = w.tags + 1 := rfl

theorem get?_holding {place : Place} {name : String} (w : Workspace) (contents : Octets) (other : DiskLocation) :
    (w.holding place name contents).disk.get? other =
      if other = place.child (Staging.waiting name (tagOf w.tags)) then some (.file contents)
      else w.disk.get? other :=
  get?_having w.tagged contents other

/-- Two workspaces in which paths lead to the same directories. -/
structure SameDirectories (w after : Workspace) : Prop where
  directory : after.directory = w.directory
  disk : w.disk.SameDirectories after.disk

namespace SameDirectories

theorem refl (w : Workspace) : w.SameDirectories w := ⟨rfl, fun _ => Iff.rfl⟩

theorem trans {between : Workspace} (first : w.SameDirectories between) (second : between.SameDirectories after) :
    w.SameDirectories after :=
  ⟨second.directory.trans first.directory, first.disk.trans second.disk⟩

theorem tagged (w : Workspace) : w.SameDirectories w.tagged := ⟨rfl, fun _ => Iff.rfl⟩

theorem having {place : Place} {name : String} (free : w.disk.get? (place.child name) ≠ some .directory)
    (contents : Octets) : w.SameDirectories (w.having (place.child name) contents) :=
  ⟨rfl, Disk.sameDirectories_insert (place.child_ne_nil name) free contents⟩

theorem without {place : Place} {name : String} (free : w.disk.get? (place.child name) ≠ some .directory) :
    w.SameDirectories (w.without (place.child name)) :=
  ⟨rfl, Disk.sameDirectories_erase (place.child_ne_nil name) free⟩

theorem holding {place : Place} {name : String}
    (free : w.disk.get? (place.child (Staging.waiting name (tagOf w.tags))) = none) (contents : Octets) :
    w.SameDirectories (w.holding place name contents) := by
  have vacant : w.tagged.disk.get? (place.child (Staging.waiting name (tagOf w.tags))) ≠ some .directory := by
    rw [show w.tagged.disk.get? _ = none from free]
    exact fun absent => nomatch absent
  exact (tagged w).trans (.having vacant contents)

end SameDirectories

/-- A path ends in a name, in a directory that is there. -/
structure Houses (w : Workspace) (p : Path) (place : Place) (name : String) : Prop where
  names : w.disk.Names w.directory p place name
  above : ∀ parent, p.parent? = some parent → parent.text = "" ∨ w.stat parent = .ok .directory

theorem Houses.of_sameDirectories {p : Path} {place : Place} {name : String} (houses : w.Houses p place name)
    (same : w.SameDirectories after) : after.Houses p place name := by
  constructor
  · rw [same.directory]
    exact houses.names.of_sameDirectories same.disk
  · intro parent found
    rcases houses.above parent found with empty | there
    · exact Or.inl empty
    · right
      rw [stat, same.directory]
      exact same.disk.stat there

/-- What is named in a directory that is there has its place in it. -/
theorem houses_join {outputDir : Path} {place : Place} {name : String} (accepted : Disk.objection? outputDir = none)
    (walked : outputDir.steps.foldlM w.disk.enter (Disk.startOf w.directory outputDir) = .ok place)
    (noSlash : '/' ∉ name.toList) (mark : '_' ∈ name.toList) : w.Houses (outputDir.join ⟨name⟩) place name := by
  refine ⟨Disk.names_join walked noSlash mark (by decide), ?_⟩
  have heard : isSilent name.toList = false := by
    unfold isSilent
    rw [Bool.or_eq_false_iff, beq_eq_false_iff_ne, beq_eq_false_iff_ne]
    constructor <;> intro silent <;> simp [silent] at mark
  obtain ⟨spelled, _⟩ := Disk.objection?_eq_none_iff.mp accepted
  intro parent found
  obtain ⟨_, parent?, short, steps, absolute⟩ := parent?_join noSlash heard spelled
  cases parent?.symm.trans found
  by_cases empty : parent.text = ""
  · exact Or.inl empty
  · refine Or.inr (Disk.stat_eq_directory_iff.mpr ⟨Disk.objection?_of_prefix short empty accepted, place, ?_⟩)
    rw [Path.steps, steps, Disk.startOf, absolute]
    exact walked

end Workspace

namespace Staging

open Workspace

variable {α ε : Type} {w after : Workspace} {p : Path} {place : Place} {name : String}

theorem run_retrying_ok {operation : Script (Except FileError α)} {value : α}
    (ok : w.run operation = (.ok value, after)) (again : Nat) :
    w.run (retrying operation again) = (.ok value, after) := by
  cases again with
  | zero => exact ok
  | succ again =>
    rw [retrying, run_bind, ok]
    rfl

/-- What changes nothing when it fails can be tried again and again. -/
theorem run_retrying_error {operation : Script (Except FileError α)} {e : FileError}
    (refused : w.run operation = (.error e, w)) (again : Nat) :
    w.run (retrying operation again) = (.error e, w) := by
  induction again with
  | zero => exact refused
  | succ again ih =>
    rw [retrying, run_bind, refused]
    dsimp only
    split_ifs
    · rfl
    · exact ih

theorem run_persist {operation : Script (Except FileError α)} {result : Except FileError α}
    (ends : w.run operation = (result, after)) (quiet : ∀ e, result = .error e → after = w) :
    w.run (Script.persist operation).outcome = (result, after) := by
  cases result with
  | ok value => exact run_retrying_ok ends retries
  | error e =>
    obtain rfl := quiet e rfl
    exact run_retrying_error ends retries

theorem run_orDiscard_ok {staged : Staged} {attempt : Attempt ε α} {value : α}
    (ok : w.run attempt.outcome = (.ok value, after)) :
    w.run (orDiscard staged attempt).outcome = (.ok value, after) := by
  rw [orDiscard, run_attempt_bind (run_tried ok)]
  rfl

theorem run_orDiscard_error {staged : Staged} {attempt : Attempt ε α} {e : ε}
    (failed : w.run attempt.outcome = (.error e, after)) :
    w.run (orDiscard staged attempt).outcome = (.error e, (after.run (discard staged)).2) := by
  rw [orDiscard, run_attempt_bind (run_tried failed)]
  dsimp only
  rw [run_attempt_bind (run_lift _ _)]
  rfl

theorem run_discard (staged : Staged) :
    (w.run (discard staged)).2 = (w.updated (w.disk.remove w.directory staged.temporary)).2 := by
  rw [discard, run_bind, run_remove]
  rfl

theorem run_ensureParent (houses : w.Houses p place name) : w.run (ensureParent p).outcome = (.ok (), w) := by
  unfold ensureParent
  cases found : p.parent? with
  | none => rfl
  | some parent =>
    dsimp only
    by_cases empty : parent.text = ""
    · rw [if_pos (String.isEmpty_iff.mpr empty)]
      rfl
    · rw [if_neg (by simpa using empty)]
      have there : w.run (Script.perform (.isPresent parent)) = (true, w) := by
        change ((w.stat parent).toOption.isSome, w) = _
        rw [(houses.above parent found).resolve_left empty]
        rfl
      rw [run_attempt_bind (run_lift _ _), there]
      rfl

/-- Why contents cannot wait for a path under a tag. -/
def waitFault? (w : Workspace) (p : Path) (place : Place) (name tag : String) : Option FileError :=
  w.disk.fault? place (temporary p tag) (waiting name tag)

/-- Contents cannot wait for a name of a directory if their own name is too long. -/
theorem waitFault?_join {outputDir : Path} {tag : String} (accepted : Disk.objection? outputDir = none)
    (noSlash : '/' ∉ name.toList) (mark : '_' ∈ name.toList) (whole : Char.ofNat 0 ∉ name.toList) (isTag : IsTag tag)
    (short : outputDir.text.utf8ByteSize + 1 + (waiting name tag).utf8ByteSize ≤ Disk.longestPath)
    (lives : place.lives = true) (free : w.disk.get? (place.child (waiting name tag)) = none) :
    waitFault? w (outputDir.join ⟨name⟩) place name tag =
      if (waiting name tag).utf8ByteSize > Disk.longestName then some .nameTooLong else none := by
  obtain ⟨spelled, clean, _⟩ := Disk.objection?_eq_none_iff.mp accepted
  obtain ⟨parent, parent?, inside, _⟩ := parent?_join noSlash (isSilent_eq_false mark (by decide)) spelled
  have waits : temporary (outputDir.join ⟨name⟩) tag = parent.join ⟨waiting name tag⟩ := by
    simp [temporary, withFileName, fileName?_join outputDir noSlash mark (by decide), parent?, waiting]
  have plain {c : Char} (other : c ∉ name.toList) (added : c ∉ ".tmp.".toList) (noDigit : c.isDigit = false)
      (noDot : c ≠ '.') : c ∉ (waiting name tag).toList := by
    simp only [waiting, String.toList_append, List.mem_append, not_or]
    exact ⟨⟨other, added⟩, notMem_of_isTag noDigit noDot isTag⟩
  have named : waiting name tag ≠ "" := by
    intro empty
    have dots := congrArg String.toList empty
    simp [waiting] at dots
  have size := Disk.utf8ByteSize_of_prefix inside
  rw [String.ofList_toList] at size
  rw [waitFault?, waits]
  exact Disk.fault?_join (plain noSlash (by decide) (by decide) (by decide)) named
    (fun zero => clean (inside.subset zero))
    (plain whole (by decide) (by decide) (by decide)) (by omega) lives free

/-- To stage contents is to write them under the next tag. -/
theorem run_stage (houses : w.Houses p place name) {contents : Octets} {result : Except FileError Staged}
    (ends : w.tagged.run (do
      orDiscard ⟨temporary p (tagOf w.tags), p⟩
        (Script.persist (Script.perform (.write (temporary p (tagOf w.tags)) contents)))
      return ⟨temporary p (tagOf w.tags), p⟩ : Attempt FileError Staged).outcome = (result, after)) :
    w.run (stage p contents).outcome = (result, after) := by
  have drawn : w.run (liftM (Script.perform .freshTag) : Attempt FileError String).outcome =
      (.ok (tagOf w.tags), w.tagged) := by
    rw [tagOf]
    exact run_lift _ _
  rw [stage, run_attempt_bind (run_ensureParent houses), run_attempt_bind drawn]
  exact ends

theorem run_stage_refused (houses : w.Houses p place name)
    (free : w.disk.get? (place.child (waiting name (tagOf w.tags))) = none) {e : FileError}
    (fault : waitFault? w p place name (tagOf w.tags) = some e) (contents : Octets) :
    w.run (stage p contents).outcome = (.error e, w.tagged) := by
  have names := houses.names.temporary (isTag_tagOf w.tags)
  have refused : w.disk.write w.directory (temporary p (tagOf w.tags)) contents = .error e := by
    rw [names.write, show w.disk.fault? place _ _ = some e from fault]
  have written : w.tagged.run (Script.perform (.write (temporary p (tagOf w.tags)) contents)) =
      (.error e, w.tagged) :=
    (run_write _ _ _).trans (updated_error refused)
  have discarded : (w.tagged.run (discard ⟨temporary p (tagOf w.tags), p⟩)).2 = w.tagged := by
    obtain ⟨e, missing⟩ := names.remove_of_absent free
    have missing : w.tagged.disk.remove w.tagged.directory (temporary p (tagOf w.tags)) = .error e := missing
    rw [run_discard, updated_error missing]
  refine run_stage houses ?_
  rw [run_attempt_bind_error (run_orDiscard_error (run_persist written fun _ _ => rfl)), discarded]

theorem run_stage_ready (houses : w.Houses p place name) (ready : waitFault? w p place name (tagOf w.tags) = none)
    (contents : Octets) : w.run (stage p contents).outcome =
      (.ok ⟨temporary p (tagOf w.tags), p⟩, w.holding place name contents) := by
  have names := houses.names.temporary (isTag_tagOf w.tags)
  have done : w.disk.write w.directory (temporary p (tagOf w.tags)) contents =
      .ok (w.disk.insert (place.child (waiting name (tagOf w.tags))) (.file contents)) := by
    rw [names.write, show w.disk.fault? place _ _ = none from ready]
  have written : w.tagged.run (Script.perform (.write (temporary p (tagOf w.tags)) contents)) =
      (.ok (), w.holding place name contents) :=
    (run_write _ _ _).trans (updated_ok done)
  refine run_stage houses ?_
  rw [run_attempt_bind (run_orDiscard_ok (run_persist written fun _ failed => nomatch failed))]
  rfl

/-- Contents wait for a path under a tag. -/
structure Awaits (w : Workspace) (p : Path) (place : Place) (name tag : String) (contents : Octets) : Prop where
  names : w.disk.Names w.directory (temporary p tag) place (waiting name tag)
  clear : Disk.refusal? place (temporary p tag) (waiting name tag) = none
  lives : place.lives = true
  entry : w.disk.get? (place.child (waiting name tag)) = some (.file contents)

namespace Awaits

variable {tag : String} {contents : Octets} (awaits : Awaits w p place name tag contents)

include awaits

theorem held : w.disk.held place (waiting name tag) = some (.file contents) := by
  rw [Disk.held, if_pos awaits.lives, awaits.entry]

/-- What waits goes on to wait as long as it is not touched. -/
theorem of_sameDirectories (same : w.SameDirectories after)
    (entry : after.disk.get? (place.child (waiting name tag)) = w.disk.get? (place.child (waiting name tag))) :
    Awaits after p place name tag contents := by
  refine ⟨?_, awaits.clear, awaits.lives, entry.trans awaits.entry⟩
  rw [same.directory]
  exact awaits.names.of_sameDirectories same.disk

/-- What waits is discarded if an attempt fails that has left it there. -/
theorem run_orDiscard {before : Workspace} (target : Path) {attempt : Attempt ε α} {e : ε}
    (failed : before.run attempt.outcome = (.error e, w)) :
    before.run (orDiscard ⟨temporary p tag, target⟩ attempt).outcome =
      (.error e, w.without (place.child (waiting name tag))) := by
  rw [run_orDiscard_error failed, run_discard, awaits.names.remove, awaits.clear, awaits.held]
  rfl

theorem run_commit_refused (names : w.disk.Names w.directory p place name) {e : FileError}
    (fault : w.disk.fault? place p name = some e) : w.run (commit ⟨temporary p tag, p⟩).outcome =
      (.error e, w.without (place.child (waiting name tag))) := by
  have refused : w.disk.rename w.directory (temporary p tag) p = .error e := by
    rw [awaits.names.rename names awaits.clear awaits.held, fault]
  have moved : w.run (Script.perform (.rename (temporary p tag) p)) = (.error e, w) :=
    (run_rename _ _ _).trans (updated_error refused)
  exact run_attempt_bind_error (awaits.run_orDiscard p (run_persist moved fun _ _ => rfl))

theorem run_commit_ready (names : w.disk.Names w.directory p place name) (ready : w.disk.fault? place p name = none) :
    w.run (commit ⟨temporary p tag, p⟩).outcome =
      (.ok p, (w.without (place.child (waiting name tag))).having (place.child name) contents) := by
  have done := awaits.names.rename names awaits.clear awaits.held
  rw [ready] at done
  have moved : w.run (Script.perform (.rename (temporary p tag) p)) =
      (.ok (), (w.without (place.child (waiting name tag))).having (place.child name) contents) :=
    (run_rename _ _ _).trans (updated_ok done)
  rw [commit, run_attempt_bind (run_orDiscard_ok (run_persist moved fun _ failed => nomatch failed))]
  rfl

end Awaits

theorem run_removeIfPresent_refused (names : w.disk.Names w.directory p place name) {e : FileError}
    (lives : place.lives = true) (fault : w.disk.fault? place p name = some e) :
    w.run (removeIfPresent p).outcome = (.error e, w) := by
  have kept : w.disk.remove w.directory p = .error e ∧ e.kind ≠ .notFound := by
    unfold Disk.fault? at fault
    rw [names.remove, Disk.held, if_pos lives]
    cases refused : Disk.refusal? place p name with
    | some e' =>
      rw [refused] at fault
      cases fault
      exact ⟨rfl, names.kind_of_refusal refused⟩
    | none =>
      simp only [refused, lives, Bool.not_true, Bool.false_eq_true, if_false] at fault
      split_ifs at fault with busy
      cases fault
      rw [busy]
      exact ⟨rfl, by decide⟩
  have removed : w.run (Attempt.tried (Script.perform (.remove p)) : Attempt FileError _).outcome =
      (.ok (.error e), w) := run_tried ((run_remove _ _).trans (updated_error kept.1))
  rw [removeIfPresent, run_attempt_bind removed]
  dsimp only
  rw [if_neg (by simpa using kept.2)]
  rfl

/-- Whether a file was there or not, it is gone. -/
theorem run_removeIfPresent_ready (names : w.disk.Names w.directory p place name)
    (ready : w.disk.fault? place p name = none) :
    w.run (removeIfPresent p).outcome = (.ok (), w.without (place.child name)) := by
  obtain ⟨clear, lives, free⟩ := Disk.fault?_eq_none_iff.mp ready
  have answer := names.remove
  rw [clear, Disk.held, if_pos lives] at answer
  cases entry : w.disk.get? (place.child name) with
  | none =>
    rw [entry] at answer
    have removed : w.run (Attempt.tried (Script.perform (.remove p)) : Attempt FileError _).outcome =
        (.ok (.error .notFound), w) := run_tried ((run_remove _ _).trans (updated_error answer))
    rw [removeIfPresent, run_attempt_bind removed, without,
      Disk.erase_of_get?_eq_none (place.child_ne_nil name) entry]
    rfl
  | some found =>
    cases found with
    | directory => exact absurd entry free
    | file contents =>
      rw [entry] at answer
      have removed : w.run (Attempt.tried (Script.perform (.remove p)) : Attempt FileError _).outcome =
          (.ok (.ok ()), w.without (place.child name)) := run_tried ((run_remove _ _).trans (updated_ok answer))
      rw [removeIfPresent, run_attempt_bind removed]
      rfl

end Staging

end SourceCoverage
