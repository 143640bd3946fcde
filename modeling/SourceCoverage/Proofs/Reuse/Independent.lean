import Mathlib.Data.List.Nodup
import Mathlib.Data.List.Perm.Basic
import SourceCoverage.Proofs.Dialect
import SourceCoverage.Proofs.Reuse.Vacant
import SourceCoverage.Report

namespace SourceCoverage

open Staging Workspace

/-- All that is written for some files. -/
def SourceFile.allWritten (files : List SourceFile) : List Path := files.flatMap written

/-- The next tags are fresh: nothing stands where files are to wait for some paths. -/
def Workspace.FreshTags (w : Workspace) (count : Nat) (paths : List Path) : Prop :=
  ∀ k < count, ∀ p ∈ paths, w.disk.get? (w.target (temporary p (tagOf (w.tags + k)))) = none

instance (w : Workspace) (count : Nat) (paths : List Path) : Decidable (w.FreshTags count paths) :=
  inferInstanceAs (Decidable (∀ k < count, ∀ p ∈ paths,
    w.disk.get? (w.target (temporary p (tagOf (w.tags + k)))) = none))

/-- The next tags are alike: what the disk says of the names under which files are to wait does not depend on the tag.
Where nothing stands, this is to say that no name is too long under one tag and short enough under another. -/
def Workspace.AlikeTags (w : Workspace) (count : Nat) (paths : List Path) : Prop :=
  ∀ k < count, ∀ l < count, ∀ p ∈ paths,
    w.stat (temporary p (tagOf (w.tags + k))) = w.stat (temporary p (tagOf (w.tags + l)))

instance (w : Workspace) (count : Nat) (paths : List Path) : Decidable (w.AlikeTags count paths) :=
  inferInstanceAs (Decidable (∀ k < count, ∀ l < count, ∀ p ∈ paths,
    w.stat (temporary p (tagOf (w.tags + k))) = w.stat (temporary p (tagOf (w.tags + l)))))

/-- Files that do not meet. Their directory is there, no two of the files to be written have one path, the way to a
source leads neither to such a file nor through it, and tags are fresh and alike for all of them. -/
structure Separate (w : Workspace) (outputDir : Path) (files : List SourceFile) : Prop where
  there : w.isDirectory outputDir = true
  different : (SourceFile.allWritten files).Nodup
  inputs : ∀ f ∈ files, ∀ p ∈ SourceFile.allWritten files, w.target p ∉ Disk.way w.directory f.input
  fresh : w.FreshTags (2 * files.length) (SourceFile.allWritten files)
  alike : w.AlikeTags (2 * files.length) (SourceFile.allWritten files)

/-- Files that are written under different names of one directory, and none of them where a source is read. -/
structure Prepared (w : Workspace) (place : Place) (files : List SourceFile) : Prop where
  houses : ∀ p ∈ SourceFile.allWritten files, ∃ name, w.Houses p place name ∧ SourceFile.IsPlanned name
  different : ((SourceFile.allWritten files).map w.target).Nodup
  inputs : ∀ f ∈ files, ∀ p ∈ SourceFile.allWritten files, w.target p ∉ Disk.way w.directory f.input
  fresh : w.FreshTags (2 * files.length) (SourceFile.allWritten files)
  alike : w.AlikeTags (2 * files.length) (SourceFile.allWritten files)

/-- A workspace that differs from another in no more than the files written and the tags given. -/
structure Aside (w : Workspace) (files : List SourceFile) (k : Nat) (u : Workspace) : Prop where
  same : w.SameDirectories u
  tags : u.tags = w.tags + k
  enough : k + 1 < 2 * files.length
  kept : ∀ location, location ∉ (SourceFile.allWritten files).map w.target →
    u.disk.get? location = w.disk.get? location

variable {codec : Codec} {grammar : Grammar} {settings : Settings} {w u : Workspace} {place : Place}
  {files done rest : List SourceFile} {file : SourceFile} {output document name : String} {p : Path} {k l : Nat}

theorem SourceFile.mem_allWritten (member : file ∈ files) (own : p ∈ file.written) : p ∈ allWritten files :=
  List.mem_flatMap.mpr ⟨file, member, own⟩

namespace Prepared

/-- What is written for a file is not written for another. -/
theorem target_notMem (prepared : Prepared w place (done ++ file :: rest)) (own : p ∈ file.written) :
    w.target p ∉ (SourceFile.allWritten done).map w.target := by
  have different := prepared.different
  rw [SourceFile.allWritten, List.flatMap_append, List.map_append, List.flatMap_cons, List.map_append] at different
  intro before
  exact (List.nodup_append.mp different).2.2 _ before _ (List.mem_append_left _ (List.mem_map_of_mem own)) rfl

variable (prepared : Prepared w place files)

include prepared

/-- Nothing stands where a file is to wait, and nothing is written there. -/
theorem waiting_free (member : p ∈ SourceFile.allWritten files) (houses : w.Houses p place name)
    (enough : k < 2 * files.length) :
    w.disk.get? (place.child (waiting name (tagOf (w.tags + k)))) = none ∧
      place.child (waiting name (tagOf (w.tags + k))) ∉ (SourceFile.allWritten files).map w.target := by
  have target : w.target (temporary p (tagOf (w.tags + k))) = place.child (waiting name (tagOf (w.tags + k))) :=
    (houses.names.temporary (isTag_tagOf _)).target
  rw [← target]
  refine ⟨prepared.fresh k enough p member, fun written => ?_⟩
  obtain ⟨q, inside, same⟩ := List.mem_map.mp written
  obtain ⟨other, houses', planned⟩ := prepared.houses q inside
  have names := Place.child_inj.mp (target.symm.trans (same.symm.trans houses'.names.target))
  exact planned.ne_waiting (isTag_tagOf _) name names

theorem waitFault?_eq (member : p ∈ SourceFile.allWritten files) (houses : w.Houses p place name)
    (enough : k < 2 * files.length) (enough' : l < 2 * files.length)
    (free : u.disk.get? (place.child (waiting name (tagOf (w.tags + k)))) = none) :
    waitFault? u p place name (tagOf (w.tags + k)) = waitFault? w p place name (tagOf (w.tags + l)) := by
  have refused := (houses.names.temporary (isTag_tagOf (w.tags + k))).refusal?_eq_of_stat
    (houses.names.temporary (isTag_tagOf (w.tags + l))) (prepared.waiting_free member houses enough).1
    (prepared.waiting_free member houses enough').1 (prepared.alike k enough l enough' p member)
  rw [waitFault?, Disk.fault?, refused, free, waitFault?, Disk.fault?,
    (prepared.waiting_free member houses enough').1]

variable (member : file ∈ files) (houses : w.Houses file.output place output)
  (houses' : w.Houses file.document place document)

include member houses houses'

theorem document_ne_output : document ≠ output := by
  rintro rfl
  have own := (List.nodup_flatMap.mp (List.map_flatMap ▸ prepared.different)).1 file member
  have same : w.target file.output = w.target file.document := houses.names.target.trans houses'.names.target.symm
  simp [SourceFile.written, same] at own

theorem seated (aside : Aside w files k u) : Seated u file place output document := by
  have first := SourceFile.mem_allWritten member file.output_mem
  have second := SourceFile.mem_allWritten member file.document_mem
  obtain ⟨free, apart⟩ := prepared.waiting_free first houses (Nat.lt_of_succ_lt aside.enough)
  obtain ⟨free', apart'⟩ := prepared.waiting_free second houses' aside.enough
  refine ⟨houses.of_sameDirectories aside.same, houses'.of_sameDirectories aside.same,
    prepared.document_ne_output member houses houses', ?_, ?_, ?_, ?_⟩
  · rw [aside.tags, aside.kept _ apart, free]
  · rw [aside.tags, Nat.add_assoc, aside.kept _ apart', free']
  · intro same
    rw [← aside.tags, same] at apart
    exact apart (List.mem_map.mpr ⟨_, second, houses'.names.target⟩)
  · intro same
    rw [← Nat.add_assoc, ← aside.tags, same] at apart'
    exact apart' (List.mem_map.mpr ⟨_, first, houses.names.target⟩)

theorem looksAlike (aside : Aside w files k u)
    (own : ∀ p ∈ file.written, u.disk.get? (w.target p) = w.disk.get? (w.target p)) :
    Alike w u file place output document := by
  have first := SourceFile.mem_allWritten member file.output_mem
  have second := SourceFile.mem_allWritten member file.document_mem
  have free := prepared.waiting_free first houses (Nat.lt_of_succ_lt aside.enough)
  have free' := prepared.waiting_free second houses' aside.enough
  have entry : u.disk.get? (place.child output) = w.disk.get? (place.child output) := by
    rw [← houses.names.target]
    exact own _ file.output_mem
  have entry' : u.disk.get? (place.child document) = w.disk.get? (place.child document) := by
    rw [← houses'.names.target]
    exact own _ file.document_mem
  have one : 1 < 2 * files.length := Nat.lt_of_le_of_lt (Nat.le_add_left 1 k) aside.enough
  have wait := prepared.waitFault?_eq first houses (Nat.lt_of_succ_lt aside.enough) (Nat.lt_of_succ_lt one)
    ((aside.kept _ free.2).trans free.1)
  have wait' := prepared.waitFault?_eq second houses' aside.enough one ((aside.kept _ free'.2).trans free'.1)
  constructor
  · rw [aside.same.directory]
    refine Disk.read_congr fun location on => aside.kept location fun written => ?_
    obtain ⟨p, inside, rfl⟩ := List.mem_map.mp written
    exact prepared.inputs file member p inside on
  · rw [sight, sight, entry, entry', Disk.fault?_congr entry, Disk.fault?_congr entry', aside.tags,
      Nat.add_assoc, wait, wait', Nat.add_zero]

end Prepared

/-- Some files have been passed over, each with the effect that it has alone. -/
structure Reached (codec : Codec) (grammar : Grammar) (settings : Settings) (w : Workspace) (done : List SourceFile)
    (u : Workspace) : Prop where
  same : w.SameDirectories u
  tags : w.tags ≤ u.tags
  tags' : u.tags ≤ w.tags + 2 * done.length
  others : ∀ location, location ∉ (SourceFile.allWritten done).map w.target →
    u.disk.get? location = w.disk.get? location
  own : ∀ f ∈ done, ∀ p ∈ f.written, u.disk.get? (w.target p) =
    (w.run (passFile codec grammar settings f).outcome).2.disk.get? (w.target p)

theorem Reached.concat (prepared : Prepared w place (done ++ file :: rest))
    (reached : Reached codec grammar settings w done u) (houses : w.Houses file.output place output)
    (houses' : w.Houses file.document place document) {entry entry' : Option DiskEntry} {after : Workspace}
    (alone : Settles w place output document entry entry' (w.run (passFile codec grammar settings file).outcome).2)
    (settles : Settles u place output document entry entry' after) :
    Reached codec grammar settings w (done ++ [file]) after := by
  have elsewhere {location : DiskLocation} (other : location ∉ file.written.map w.target) :
      after.disk.get? location = u.disk.get? location := by
    have targets : file.written.map w.target = [place.child output, place.child document] := by
      rw [← houses.names.target, ← houses'.names.target]
      rfl
    rw [targets, List.mem_pair, not_or] at other
    rw [settles.entries, if_neg other.1, if_neg other.2]
  refine ⟨reached.same.trans settles.same, reached.tags.trans settles.tags, ?_, fun location outside => ?_, ?_⟩
  · have := reached.tags'
    have := settles.tags'
    rw [List.length_append, List.length_singleton]
    omega
  · rw [SourceFile.allWritten, List.flatMap_append, List.map_append, List.mem_append, not_or, List.flatMap_singleton]
      at outside
    rw [elsewhere outside.2, reached.others location outside.1]
  · intro f inside p own
    rcases List.mem_append.mp inside with before | last
    · rw [← reached.own f before p own]
      refine elsewhere fun again => ?_
      obtain ⟨q, own', same⟩ := List.mem_map.mp again
      refine prepared.target_notMem own' ?_
      rw [same]
      exact List.mem_map_of_mem (SourceFile.mem_allWritten before own)
    · cases List.mem_singleton.mp last
      rw [alone.entries, settles.entries]
      rcases List.mem_pair.mp own with rfl | rfl
      · rw [show w.target file.output = place.child output from houses.names.target, if_pos rfl, if_pos rfl]
      · rw [show w.target file.document = place.child document from houses'.names.target, if_pos rfl, if_pos rfl]

/-- One more file fares as it would alone. -/
theorem Reached.step (prepared : Prepared w place (done ++ file :: rest))
    (reached : Reached codec grammar settings w done u) :
    (u.run (passFile codec grammar settings file).outcome).1 =
      (w.run (passFile codec grammar settings file).outcome).1 ∧
      Reached codec grammar settings w (done ++ [file]) (u.run (passFile codec grammar settings file).outcome).2 := by
  have member : file ∈ done ++ file :: rest := by simp
  have length : (done ++ file :: rest).length = done.length + (rest.length + 1) := by simp
  obtain ⟨output, houses, _⟩ := prepared.houses file.output (SourceFile.mem_allWritten member file.output_mem)
  obtain ⟨document, houses', _⟩ := prepared.houses file.document (SourceFile.mem_allWritten member file.document_mem)
  obtain ⟨k, tags⟩ := Nat.le.dest reached.tags
  have start : Aside w (done ++ file :: rest) 0 w := ⟨.refl w, rfl, by omega, fun _ _ => rfl⟩
  have aside : Aside w (done ++ file :: rest) k u := by
    refine ⟨reached.same, tags.symm, ?_, fun location outside => reached.others location fun written => outside ?_⟩
    · have := reached.tags'
      omega
    · rw [SourceFile.allWritten, List.flatMap_append, List.map_append]
      exact List.mem_append_left _ written
  have alike := prepared.looksAlike member houses houses' aside fun p own =>
    reached.others _ (prepared.target_notMem own)
  obtain ⟨effect, ⟨_, ended, settles⟩, after, ended', settles'⟩ := alike.run_passFile
    (prepared.seated member houses houses' start) (prepared.seated member houses houses' aside) codec grammar settings
  have alone : Settles w place output document effect.output effect.document
      (w.run (passFile codec grammar settings file).outcome).2 := by
    rw [ended]
    exact settles
  refine ⟨by rw [ended, ended'], ?_⟩
  rw [ended']
  exact reached.concat prepared houses houses' alone settles'

/-- Whatever has been passed over before, each file fares as it would alone. -/
theorem Reached.run_passAll (colored : Bool) (prepared : Prepared w place (done ++ rest))
    (reached : Reached codec grammar settings w done u) :
    (u.run (passAll codec grammar settings colored rest)).1 =
        rest.map (fun f => ⟨f.input, (w.run (passFile codec grammar settings f).outcome).1⟩) ∧
      Reached codec grammar settings w (done ++ rest) (u.run (passAll codec grammar settings colored rest)).2 := by
  induction rest generalizing done u with
  | nil =>
    rw [List.append_nil]
    exact ⟨rfl, reached⟩
  | cons file rest ih =>
    obtain ⟨result, next⟩ := reached.step prepared
    rw [List.append_cons] at prepared ⊢
    -- the line that is printed is none of the disk's business
    have printed (line : String) : Reached codec grammar settings w (done ++ [file])
        ((u.run (passFile codec grammar settings file).outcome).2.run (Script.printLine line)).2 :=
      ⟨⟨next.same.directory, next.same.disk⟩, next.tags, next.tags', next.others, next.own⟩
    obtain ⟨reports, last⟩ := ih prepared (printed _)
    rw [passAll, run_bind, run_bind, run_bind, result, reports]
    exact ⟨rfl, last⟩

/-- A planned file is written under planned names of the output directory. -/
theorem SourceFile.written_of_mem_plan {workingDirectory : Option Path} {sources : List Path}
    (planned : file ∈ plan workingDirectory settings sources) (own : p ∈ file.written) :
    ∃ name, p = settings.outputDir.join ⟨name⟩ ∧ IsPlanned name := by
  rw [(mem_sources_of_mem_plan planned).2] at own
  obtain ⟨_, spelled, isEnding⟩ := exists_of_mem_written own
  exact ⟨_, spelled, isEnding.isPlanned _⟩

theorem Separate.of_perm {outputDir : Path} {order : List SourceFile} (separate : Separate w outputDir files)
    (reordered : order.Perm files) : Separate w outputDir order := by
  have written := reordered.flatMap_right SourceFile.written
  have inside {p : Path} : p ∈ SourceFile.allWritten order → p ∈ SourceFile.allWritten files := written.mem_iff.mp
  refine ⟨separate.there, written.nodup_iff.mpr separate.different, ?_, ?_, ?_⟩
  · exact fun f member p own => separate.inputs f (reordered.mem_iff.mp member) p (inside own)
  · rw [reordered.length_eq]
    exact fun k enough p member => separate.fresh k enough p (inside member)
  · rw [reordered.length_eq]
    exact fun k enough l enough' p member => separate.alike k enough l enough' p (inside member)

theorem Separate.prepared {outputDir : Path} (separate : Separate w outputDir files)
    (planned : ∀ p ∈ SourceFile.allWritten files, ∃ name, p = outputDir.join ⟨name⟩ ∧ SourceFile.IsPlanned name) :
    ∃ place, Prepared w place files := by
  have stat : w.disk.stat w.directory outputDir = .ok .directory := by
    have there := separate.there
    unfold isDirectory at there
    split at there
    · assumption
    · cases there
  obtain ⟨accepted, place, walked⟩ := Disk.stat_eq_directory_iff.mp stat
  have housed {name : String} (isPlanned : SourceFile.IsPlanned name) : w.Houses (outputDir.join ⟨name⟩) place name :=
    houses_join accepted walked isPlanned.noSlash isPlanned.mark
  refine ⟨place, fun p member => ?_, ?_, separate.inputs, separate.fresh, separate.alike⟩
  · obtain ⟨name, rfl, isPlanned⟩ := planned p member
    exact ⟨name, housed isPlanned, isPlanned⟩
  · refine List.Nodup.map_on (fun p member q member' same => ?_) separate.different
    obtain ⟨name, rfl, isPlanned⟩ := planned p member
    obtain ⟨other, rfl, isPlanned'⟩ := planned q member'
    rw [Place.child_inj.mp ((housed isPlanned).names.target.symm.trans
      (Eq.trans same (housed isPlanned').names.target))]

section Plan

variable {workingDirectory : Option Path} {sources : List Path} {order : List SourceFile}

/-- The files of a plan that do not meet, each passed over once. -/
theorem reached_of_perm_plan
    (separate : Separate w settings.outputDir (SourceFile.plan workingDirectory settings sources))
    (reordered : order.Perm (SourceFile.plan workingDirectory settings sources)) (codec : Codec) (grammar : Grammar)
    (colored : Bool) :
    (w.run (passAll codec grammar settings colored order)).1 =
        order.map (fun f => ⟨f.input, (w.run (passFile codec grammar settings f).outcome).1⟩) ∧
      Reached codec grammar settings w order (w.run (passAll codec grammar settings colored order)).2 := by
  have planned : ∀ p ∈ SourceFile.allWritten order,
      ∃ name, p = settings.outputDir.join ⟨name⟩ ∧ SourceFile.IsPlanned name := by
    intro p member
    obtain ⟨file, inside, own⟩ := List.mem_flatMap.mp member
    exact SourceFile.written_of_mem_plan (reordered.mem_iff.mp inside) own
  obtain ⟨place, prepared⟩ := (separate.of_perm reordered).prepared planned
  have start : Reached codec grammar settings w [] w :=
    ⟨.refl w, Nat.le_refl _, Nat.le_refl _, fun _ _ => rfl, fun _ none => nomatch none⟩
  exact start.run_passAll colored prepared

end Plan

def neighbourFile : SourceFile := ⟨⟨"h.c"⟩, ⟨"out/h_1cc95ca0.c"⟩, ⟨"out/h_1cc95ca0.cid"⟩⟩

/-- Two sources, and a directory where the document of one of them belongs. -/
def neighbourStart : Workspace :=
  { blockedStart with
    disk := ⟨(["h.c"], .file (Utf8.encode "void h(void){g();}")) :: blockedStart.disk.entries⟩ }

def neighbourSettings : Settings := { outputDir := ⟨"out"⟩ }

def neighbourPass (files : List SourceFile) : List FileReport × Workspace :=
  neighbourStart.run (passAll .storing (.ofConcrete fun _ _ => .ok callerTree) neighbourSettings false files)

def neighbourVisit (file : SourceFile) : Script (Except Failure Outcome) :=
  (passFile .storing (.ofConcrete fun _ _ => .ok callerTree) neighbourSettings file).outcome

/-- How a run over some files goes, file by file. -/
def neighbourResults (w : Workspace) (files : List SourceFile) : List (Except Failure Outcome) :=
  (w.run (passAll .storing (.ofConcrete fun _ _ => .ok callerTree) neighbourSettings false files)).1.map (·.result)

theorem neighbourResults_pair (w : Workspace) (file file' : SourceFile) :
    ∃ line, neighbourResults w [file, file'] = [(w.run (neighbourVisit file)).1,
      (((w.run (neighbourVisit file)).2.run (Script.printLine line)).2.run (neighbourVisit file')).1] := by
  refine ⟨FileReport.line ⟨file.input, (w.run (neighbourVisit file)).1⟩ false, ?_⟩
  rw [neighbourResults, passAll, run_bind, run_bind, run_bind, passAll, run_bind, run_bind, run_bind]
  rfl

/-- The way to this source leads through the place of a document and back. -/
def detourFile : SourceFile :=
  ⟨⟨"sub/../out/f_bda90eca.cid/../../h.c"⟩, ⟨"out/h_9f34e6f6.c"⟩, ⟨"out/h_9f34e6f6.cid"⟩⟩

def detourStart : Workspace :=
  { disk := ⟨[(["f.c"], .file (Utf8.encode "void f(void){g();}")),
      (["h.c"], .file (Utf8.encode "void h(void){g();}")), (["out"], .directory), (["sub"], .directory)]⟩ }

@[irreducible] def longName (count : Nat) (ending : String) : String :=
  String.ofList (List.replicate count 'a') ++ ending

/-- The document of this source can wait under a tag with one digit at the end, but not with two. -/
def longFile : SourceFile :=
  ⟨(⟨"src"⟩ : Path).join ⟨longName 232 ".c"⟩, (⟨"out"⟩ : Path).join ⟨longName 232 "_592dd2d7.c"⟩,
    (⟨"out"⟩ : Path).join ⟨longName 232 "_592dd2d7.cid"⟩⟩

def longStart : Workspace where
  disk := ⟨[(["f.c"], .file (Utf8.encode "void f(void){g();}")),
    (["src", longName 232 ".c"], .file (Utf8.encode "void h(void){g();}")), (["src"], .directory),
    (["out"], .directory)]⟩
  tags := 8

/-- The long source can be read, and nothing has been written for it. -/
def Workspace.HasLong (u : Workspace) (tags : Nat) : Prop :=
  u.tags = tags ∧
    (⟨"src"⟩ : Path).steps.foldlM u.disk.enter (Disk.startOf u.directory ⟨"src"⟩) = .ok ⟨["src"], true⟩ ∧
    (⟨"out"⟩ : Path).steps.foldlM u.disk.enter (Disk.startOf u.directory ⟨"out"⟩) = .ok ⟨["out"], true⟩ ∧
    u.disk.get? ["src", longName 232 ".c"] = some (.file (Utf8.encode "void h(void){g();}")) ∧
    ∀ ending ∈ ["_592dd2d7.c", "_592dd2d7.cid"], u.disk.get? ["out", longName 232 ending] = none ∧
      ∀ k < 2, u.disk.get? ["out", waiting (longName 232 ending) (tagOf (tags + k))] = none

instance (u : Workspace) (tags : Nat) : Decidable (u.HasLong tags) := by
  unfold Workspace.HasLong
  infer_instance

section Long

variable {count : Nat} {ending : String}

theorem toList_longName (count : Nat) (ending : String) :
    (longName count ending).toList = List.replicate count 'a' ++ ending.toList := by
  rw [longName, String.toList_append, String.toList_ofList]

theorem notMem_longName {c : Char} (other : c ≠ 'a') (apart : c ∉ ending.toList) :
    c ∉ (longName count ending).toList := by
  rw [toList_longName, List.mem_append, not_or]
  exact ⟨fun inside => other (List.eq_of_mem_replicate inside), apart⟩

theorem mem_longName (count : Nat) (ending : String) : 'a' ∈ (longName (count + 1) ending).toList := by
  rw [toList_longName]
  exact List.mem_append_left _ (List.mem_replicate.mpr ⟨Nat.succ_ne_zero count, rfl⟩)

theorem isPlanned_longName {back : List Char} (marked : ending.toList = '_' :: back) (noSlash : '/' ∉ ending.toList)
    (dots : back.count '.' ≤ 1) : SourceFile.IsPlanned (longName count ending) :=
  ⟨notMem_longName (by decide) noSlash, _, back, by rw [toList_longName, marked], dots⟩

/-- The files of a source with a long name. -/
theorem inDirectory_longName (count : Nat) {directory outputDir : Path} {tag : String}
    (tagged : SourceFile.tag none (directory.join ⟨longName (count + 1) ".c"⟩) = tag) :
    SourceFile.inDirectory none outputDir (directory.join ⟨longName (count + 1) ".c"⟩) =
      ⟨directory.join ⟨longName (count + 1) ".c"⟩, outputDir.join ⟨longName (count + 1) ("_" ++ tag ++ ".c")⟩,
        outputDir.join ⟨longName (count + 1) ("_" ++ tag ++ ".cid")⟩⟩ := by
  have named := Path.fileName?_join directory (notMem_longName (by decide) (by decide)) (mem_longName count ".c")
    (by decide)
  have divided : Path.divideName (longName (count + 1) ".c").toList =
      (List.replicate (count + 1) 'a', some ['c']) := by
    rw [toList_longName]
    exact divideName_append_dot (List.cons_ne_nil _ _) (by decide)
  have stem : (directory.join ⟨longName (count + 1) ".c"⟩).stem? =
      some (String.ofList (List.replicate (count + 1) 'a')) := by
    rw [Path.stem?, named, Option.map_some, divided]
  have extension : (directory.join ⟨longName (count + 1) ".c"⟩).extension? = some "c" := by
    rw [Path.extension?, named, Option.bind_some, divided]
    rfl
  rw [SourceFile.inDirectory, SourceFile.taggedStem, stem, tagged, extension]
  simp [longName, String.append_assoc]

theorem plan_long : SourceFile.plan none neighbourSettings [longFile.input, ⟨"f.c"⟩] = [longFile, callerFile] := by
  have tagged : SourceFile.tag none longFile.input = "592dd2d7" := by decide +kernel
  have first : SourceFile.inDirectory none ⟨"out"⟩ longFile.input = longFile := by
    refine (inDirectory_longName 231 tagged).trans ?_
    rw [show "_" ++ "592dd2d7" ++ ".c" = "_592dd2d7.c" by decide,
      show "_" ++ "592dd2d7" ++ ".cid" = "_592dd2d7.cid" by decide, longFile]
  have second : SourceFile.inDirectory none ⟨"out"⟩ ⟨"f.c"⟩ = callerFile := by decide +kernel
  have differ : callerFile.output.agrees longFile.output = false := by
    rw [show callerFile.output = (⟨"out"⟩ : Path).join ⟨"f_bda90eca.c"⟩ by decide +kernel,
      ← Bool.not_eq_true]
    intro same
    have planned : SourceFile.IsPlanned "f_bda90eca.c" :=
      ⟨by decide, ['f'], "bda90eca.c".toList, by decide, by decide⟩
    have planned' : SourceFile.IsPlanned (longName 232 "_592dd2d7.c") :=
      isPlanned_longName rfl (by decide) (by decide)
    exact absurd (SourceFile.eq_of_agrees_join planned planned' same) (by decide +kernel)
  rw [SourceFile.plan, List.map_cons, List.map_singleton, neighbourSettings, first, second]
  simp [SourceFile.distinct, differ]

theorem get?_longStart (name : String) : longStart.disk.get? ["out", name] = none := by
  refine (if_neg (by simp)).trans (List.lookup_eq_none_iff.mpr ?_)
  simp [longStart]

theorem freshTags_long : longStart.FreshTags 4 (SourceFile.allWritten [longFile, callerFile]) := by
  intro k _ p member
  obtain ⟨file, inside, own⟩ := List.mem_flatMap.mp member
  rw [← plan_long] at inside
  obtain ⟨name, rfl, planned⟩ := SourceFile.written_of_mem_plan inside own
  rw [(target_join longStart _ planned.noSlash planned.mark).2 _ (isTag_tagOf _)]
  exact get?_longStart _

section Run

variable {u : Workspace} {tags : Nat} (hasLong : u.HasLong tags)

include hasLong

theorem Workspace.HasLong.read : u.disk.read u.directory longFile.input = .ok (Utf8.encode "void h(void){g();}") := by
  obtain ⟨_, walked, _, stored, _⟩ := hasLong
  have noSlash : '/' ∉ (longName 232 ".c").toList := notMem_longName (by decide) (by decide)
  have names : u.disk.Names u.directory longFile.input ⟨["src"], true⟩ (longName 232 ".c") :=
    Disk.names_join walked noSlash (mem_longName 231 ".c") (by decide)
  have accepted : Disk.objection? longFile.input = none :=
    Disk.objection?_join noSlash (by decide +kernel) (by decide) (notMem_longName (by decide) (by decide))
      (by decide +kernel)
  have held : u.disk.held ⟨["src"], true⟩ (longName 232 ".c") = _ := stored
  rw [Disk.read_eq_ok_iff, names.stat, Disk.refusal?_eq_none accepted (by decide +kernel), held]

theorem Workspace.HasLong.vacant (few : tags = 8 ∨ tags = 10) {ending : String}
    (listed : ending ∈ ["_592dd2d7.c", "_592dd2d7.cid"]) {k : Nat} (small : k < 2) :
    u.Vacant ⟨"out"⟩ ⟨["out"], true⟩ (longName 232 ending) (tagOf (u.tags + k)) := by
  obtain ⟨given, _, _, _, absent⟩ := hasLong
  have endings : ending = "_592dd2d7.c" ∨ ending = "_592dd2d7.cid" := by simpa using listed
  have numbers : k = 0 ∨ k = 1 := by omega
  rw [given]
  refine ⟨?_, ?_, ?_, (absent ending listed).1, (absent ending listed).2 k small⟩
  · rcases endings with rfl | rfl <;> exact isPlanned_longName rfl (by decide) (by decide)
  · rcases endings with rfl | rfl <;> exact notMem_longName (by decide) (by decide)
  · rcases few with rfl | rfl <;> rcases endings with rfl | rfl <;> rcases numbers with rfl | rfl <;> decide +kernel

/-- Whether the long source can be instrumented is a matter of the next tags. -/
theorem Workspace.HasLong.run (few : tags = 8 ∨ tags = 10) :
    (u.run (neighbourVisit longFile)).1 = if tags = 8 then .ok (.instrumented 1 0 .outputMissing)
      else .error (.unwritable longFile.document .nameTooLong) := by
  have counted : (Instrumentation.ofSource (.ofConcrete fun _ _ => .ok callerTree) neighbourSettings longFile.input
      (Utf8.encode "void h(void){g();}")).map (fun made => (made.document.markers.length, made.decisions)) =
        .ok (1, 0) := by decide +kernel
  cases instrumented : Instrumentation.ofSource (.ofConcrete fun _ _ => .ok callerTree) neighbourSettings
      longFile.input (Utf8.encode "void h(void){g();}") with
  | error e =>
    rw [instrumented] at counted
    cases counted
  | ok made =>
    rw [instrumented] at counted
    obtain ⟨markers, decisions⟩ := Prod.mk.inj (Except.ok.inj counted)
    have first := hasLong.vacant few List.mem_cons_self (k := 0) (by decide)
    have second := hasLong.vacant few (List.mem_cons_of_mem _ List.mem_cons_self) (k := 1) (by decide)
    have ⟨given, _, walked, _⟩ := hasLong
    refine (run_passFile_vacant (by decide) walked rfl first second (by decide +kernel) hasLong.read
      (Utf8.decode_encode _) rfl instrumented .storing).trans ?_
    rw [given, markers, decisions]
    rcases few with rfl | rfl
    · rw [if_neg (by decide +kernel), if_neg (by decide +kernel), if_pos rfl]
    · rw [if_neg (by decide +kernel), if_pos (by decide +kernel), if_neg (by decide), longFile]

end Run

end Long

end SourceCoverage
