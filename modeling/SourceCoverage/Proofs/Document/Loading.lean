import SourceCoverage.Codec.Storing
import SourceCoverage.Proofs.Document
import SourceCoverage.Reuse
import SourceCoverage.Workspace

namespace SourceCoverage

open Json

theorem Position.depth_toJson (p : Position) : p.toJson.depth = 1 := by
  simp [Position.toJson, depth_record, ofNat, Json.depth]

theorem Section.depth_toJson (s : Section) : s.toJson.depth = 2 := by
  simp [Section.toJson, depth_record, Position.depth_toJson]

theorem Marker.depth_toJson_le (m : Marker) : m.toJson.depth ≤ 3 := by
  unfold Marker.toJson
  cases m.kind <;> simp [depth_record, ofNat, ofString, Json.depth, Position.depth_toJson, Section.depth_toJson]

theorem Decision.depth_toJson (d : Decision) : d.toJson.depth = d.tree.depth + 1 := by
  simp [Decision.toJson, depth_record, ofNat, Json.depth, ConditionTree.depth_toJson]

namespace Document

/-- The nesting of a document is that of its markers or that of its decisions. -/
theorem depth_toJson_le_iff (d : Document) (levels : Nat) : d.toJson.depth ≤ levels + 2 ↔
    (∀ m ∈ d.markers, m.toJson.depth ≤ levels) ∧ ∀ decision ∈ d.decisions, decision.tree.depth + 1 ≤ levels := by
  have nesting : d.toJson.depth = max (depthOfItems (d.markers.map Marker.toJson))
      (depthOfItems (d.decisions.map Decision.toJson)) + 2 := by
    simp [toJson, depth_record, ofNat, ofString, Json.depth, Nat.add_max_add_right]
  rw [nesting, Nat.add_le_add_iff_right, Nat.max_le, depthOfItems_le_iff, depthOfItems_le_iff, List.forall_mem_map,
    List.forall_mem_map]
  simp only [Decision.depth_toJson]

/-- The levels around a tree are those that its limit is short of the reader's. -/
theorem depth_toJson_lt_iff_isShallow (d : Document) : d.toJson.depth < recursionLimit ↔ d.IsShallow := by
  show d.toJson.depth + 1 ≤ 127 + 1 ↔ _
  rw [Nat.add_le_add_iff_right, depth_toJson_le_iff d 125]
  constructor
  · rintro ⟨_, shallow⟩ decision member
    exact Nat.le_of_succ_le_succ (shallow decision member)
  · intro shallow
    refine ⟨fun m _ => m.depth_toJson_le.trans (by decide), fun decision member => ?_⟩
    exact Nat.succ_le_succ (shallow decision member)

/-- Loading reads the file and changes nothing. -/
theorem run_load {codec : Codec} {w : Workspace} {p : Path} {bytes : Octets}
    (stored : w.disk.read w.directory p = .ok bytes) :
    w.run (load codec p).outcome =
      ((ofFile codec bytes).mapError fun fault => .unusableDocument p fault.message, w) := by
  have answered : Workspace.perform (.read p) w = (.ok bytes, w) := by rw [Workspace.perform, stored]
  simp only [Workspace.run, load, Attempt.outcome, Attempt.tried, Script.perform, ExceptT.run, ExceptT.lift,
    ExceptT.mk, bind, ExceptT.bind, Functor.map, Script.bind, Script.run, answered, Function.comp_apply,
    ExceptT.bindCont]
  cases ofFile codec bytes <;> rfl

/-- The text of a document without fault is loaded as long as the reader does not give it up, that is if no condition
tree of it is too deep; and what is loaded is the document. -/
theorem load_text {codec : Codec} {d : Document} (version : d.formatVersion = 1) (valid : d.inconsistency? = none)
    {w : Workspace} {p : Path} (stored : w.disk.read w.directory p = .ok d.text) :
    ((∃ read, (w.run (load codec p).outcome).1 = .ok read) ↔ d.toJson.depth ≤ 127) ∧
      (d.toJson.depth ≤ 127 ↔ ∀ decision ∈ d.decisions, decision.tree.depth ≤ 124) ∧
      (d.toJson.depth ≤ 127 → (w.run (load codec p).outcome).1 = .ok d.restored) := by
  have depth : d.toJson.depth ≤ 127 ↔ d.IsShallow := Nat.lt_succ_iff.symm.trans d.depth_toJson_lt_iff_isShallow
  have loaded (read : Document) :
      (w.run (load codec p).outcome).1 = .ok read ↔ d.toJson.depth ≤ 127 ∧ read = d.restored := by
    have file : ofFile codec d.text = .ok read ↔ _ := ofFile_eq_ok_iff codec d false read
    rw [run_load stored, depth]
    cases opened : ofFile codec d.text with
    | error fault =>
      rw [opened] at file
      simpa [Except.mapError, version, valid, currentFormat] using file
    | ok document =>
      rw [opened] at file
      simpa [Except.mapError, version, valid, currentFormat] using file
  refine ⟨⟨?_, ?_⟩, depth, ?_⟩
  · rintro ⟨read, ok⟩
    exact ((loaded read).mp ok).1
  · intro shallow
    exact ⟨d.restored, (loaded _).mpr ⟨shallow, rfl⟩⟩
  · intro shallow
    exact (loaded _).mpr ⟨shallow, rfl⟩

/-- A document with a braced checkpoint on a section, an evaluation at a point, and a decision of two conditions. -/
def mixedDocument : Document where
  formatVersion := 1
  sourceHash := "a\"b\n"
  settingsHash := ""
  markers := [
    ⟨1, .checkpoint, .extent ⟨⟨1, 1⟩, ⟨1, 9⟩⟩, some ⟨1, 9⟩⟩,
    ⟨2, .evaluation .decision, .point ⟨0, 4294967295⟩, none⟩,
    ⟨3, .evaluation .condition, .extent ⟨⟨1, 4⟩, ⟨1, 5⟩⟩, none⟩]
  decisions := [⟨2, .join .and (.condition 3) (.not (.condition 3)) (some 2)⟩]

def mixedStored : Workspace := { disk := ⟨[(["d.cid"], .file mixedDocument.text)]⟩ }

theorem load_text_mixed :
    mixedDocument.inconsistency? = none ∧
      mixedStored.disk.read mixedStored.directory ⟨"d.cid"⟩ = .ok mixedDocument.text ∧
      (mixedStored.run (load .storing ⟨"d.cid"⟩).outcome).1 = .ok { mixedDocument with markers := [
        .checkpoint 1 ⟨1, 1⟩, .evaluation 2 ⟨⟨0, 4294967295⟩, ⟨0, 4294967295⟩⟩ .decision,
        .evaluation 3 ⟨⟨1, 4⟩, ⟨1, 5⟩⟩ .condition] } := by
  have valid : mixedDocument.inconsistency? = none := by decide
  have stored : mixedStored.disk.read mixedStored.directory ⟨"d.cid"⟩ = .ok mixedDocument.text := by decide +kernel
  obtain ⟨_, depth, loaded⟩ := load_text rfl valid stored
  exact ⟨valid, stored, loaded (depth.mpr (by decide))⟩

end Document

end SourceCoverage
