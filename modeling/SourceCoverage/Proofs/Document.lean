import SourceCoverage.Document.File
import SourceCoverage.Proofs.Json.Reading

namespace SourceCoverage

open Json

namespace Json

theorem written_ofString (s : String) : Written (.ofString s) := .text (Utf8.encode s)

theorem written_record {fields : List (String × Json)} (each : ∀ field ∈ fields, Written field.2) :
    Written (.record fields) := by
  refine .object ?_ ?_
  · intro field member
    obtain ⟨given, _, rfl⟩ := List.mem_map.mp member
    exact ⟨Utf8.encode given.1, rfl⟩
  · intro field member
    obtain ⟨given, inside, rfl⟩ := List.mem_map.mp member
    exact each given inside

@[simp] theorem string?_ofString (s : String) : string? (.ofString s) = some s := decodeText_escaped s

@[simp] theorem word?_ofNat (n : UInt32) : word? (.ofNat n.toNat) = some n := by
  have bound := n.toNat_lt
  simp [word?, ofNat, JsonNumber.nat?, bound]

@[simp] theorem wordIn?_ofString {α : Type} (words : List (String × α)) (s : String) :
    wordIn? words (.ofString s) = words.lookup s := by
  simp [wordIn?, ofString]

theorem namedFields_record (fields : List (String × Json)) :
    namedFields (fields.map fun (name, value) => ((Utf8.encode name).flatMap escapeOctet, value)) = some fields := by
  induction fields with
  | nil => rfl
  | cons field fields ih =>
    rw [namedFields] at ih ⊢
    rw [List.map_cons, List.mapM_cons, ih]
    simp

/-- The fields of a record are found under their names, if no name occurs twice. -/
theorem fields?_record {names : List String} {fields : List (String × Json)}
    (distinct : ∀ name ∈ names, (fields.filter (·.1 == name)).length ≤ 1) :
    (record fields).fields? names = some (names.map fun name => fields.lookup name) := by
  simpa [fields?, record, namedFields_record] using distinct

/-- The tag of a record that has it first and no second one. -/
theorem tagged?_record {name : String} {tag : Json} {fields : List (String × Json)}
    (others : ∀ field ∈ fields, field.1 ≠ name) :
    (record ((name, tag) :: fields)).tagged? name = some (tag, record fields) := by
  have none : ∀ field ∈ fields.map (fun (name, value) => ((Utf8.encode name).flatMap escapeOctet, value)),
      (decodeText field.1 == some name) = false := by
    intro field member
    obtain ⟨given, inside, rfl⟩ := List.mem_map.mp member
    simpa using others given inside
  rw [record, List.map_cons, tagged?, List.partition_eq_filter_filter,
    List.filter_cons_of_pos (by simp), List.filter_cons_of_neg (by simp),
    List.filter_eq_nil_iff.mpr fun field member => by simp [none field member],
    List.filter_eq_self.mpr fun field member => by simp [none field member]]
  rfl

@[simp] theorem optional_none {α : Type} (read? : Json → Option α) : Json.optional read? none = some none := rfl

theorem optional_some {α : Type} {read? : Json → Option α} {json : Json} {value : α} (read : read? json = some value)
    (given : json ≠ .null) : Json.optional read? (some json) = some (some value) := by
  cases json with
  | null => exact absurd rfl given
  | _ => simp [Json.optional, read]

theorem list?_map {α β : Type} {item? : Json → Option α} {f : β → Json} {g : β → α} {items : List β}
    (each : ∀ x ∈ items, item? (f x) = some (g x)) : list? item? (.array (items.map f)) = some (items.map g) := by
  rw [list?]
  induction items with
  | nil => rfl
  | cons x items ih =>
    rw [List.map_cons, List.mapM_cons, each x List.mem_cons_self,
      ih fun y member => each y (List.mem_cons_of_mem _ member)]
    rfl

/-- A list is read back if each of its items is. -/
theorem list?_map_of_ite {α : Type} {item? : Json → Option α} {f : α → Json} {readable : α → Prop}
    [DecidablePred readable] (each : ∀ x, item? (f x) = if readable x then some x else none) (items : List α) :
    list? item? (.array (items.map f)) = if ∀ x ∈ items, readable x then some items else none := by
  rw [list?]
  induction items with
  | nil => simp
  | cons x items ih =>
    rw [List.map_cons, List.mapM_cons, each, ih]
    by_cases first : readable x
    · by_cases rest : ∀ y ∈ items, readable y
      · have all : ∀ y ∈ x :: items, readable y := List.forall_mem_cons.mpr ⟨first, rest⟩
        rw [if_pos first, if_pos rest, if_pos all]
        rfl
      · have some : ¬ ∀ y ∈ x :: items, readable y := fun all => rest (List.forall_mem_cons.mp all).2
        rw [if_pos first, if_neg rest, if_neg some]
        rfl
    · have some : ¬ ∀ y ∈ x :: items, readable y := fun all => first (List.forall_mem_cons.mp all).1
      rw [if_neg first, if_neg some]
      rfl

theorem depth_record (fields : List (String × Json)) :
    (record fields).depth = (fields.map fun field => field.2.depth).foldr max 0 + 1 := by
  rw [record, depth]
  congr 1
  induction fields with
  | nil => rfl
  | cons field fields ih => rw [List.map_cons, depthOfFields, ih, List.map_cons, List.foldr_cons]

theorem depthOfItems_le_iff {items : List Json} {levels : Nat} :
    depthOfItems items ≤ levels ↔ ∀ item ∈ items, item.depth ≤ levels := by
  induction items with
  | nil => simp [depthOfItems]
  | cons item items ih => rw [depthOfItems, Nat.max_le, ih, List.forall_mem_cons]

theorem isInterpretable_record (fields : List (String × Json)) :
    (record fields).isInterpretable = fields.all fun field => field.2.isInterpretable := by
  rw [record, isInterpretable]
  induction fields with
  | nil => rfl
  | cons field fields ih => simp [fieldsInterpretable, ih]

theorem isInterpretable_ofNat (n : UInt32) : (Json.ofNat n.toNat).isInterpretable = true := by
  have bound := n.toNat_lt
  have finite : 4294967296 ≤ JsonNumber.overflowBound := by decide +kernel
  simp [ofNat, isInterpretable, JsonNumber.isFinite, JsonNumber.significand]
  omega

theorem isInterpretable_ofString (s : String) : (Json.ofString s).isInterpretable = true := by
  simp [ofString, isInterpretable]

end Json

theorem Position.ofJson?_toJson (p : Position) : Position.ofJson? p.toJson = some p := by
  rw [Position.ofJson?, Position.toJson, fields?_record (by simp)]
  simp [required, List.lookup_cons, List.lookup_nil]

theorem Position.written_toJson (p : Position) : Written p.toJson :=
  written_record (by simp [Written.number])

theorem Section.ofJson?_toJson (s : Section) : Section.ofJson? s.toJson = some s := by
  rw [Section.ofJson?, Section.toJson, fields?_record (by simp)]
  simp [required, List.lookup_cons, List.lookup_nil, Position.ofJson?_toJson]

theorem Section.written_toJson (s : Section) : Written s.toJson :=
  written_record (by simp [Position.written_toJson])

namespace Marker

/-- The marker as it is read back: without its scope, a checkpoint at its start and an evaluation on a section, which
is empty if the marker was at a point. -/
def restored (m : Marker) : Marker :=
  { m with
    location := if m.isCheckpoint then .point m.start else .extent m.writtenExtent
    scopeEnd := none }

theorem ofJson?_toJson (m : Marker) : ofJson? m.toJson = some m.restored := by
  obtain ⟨id, kind, location, scopeEnd⟩ := m
  cases kind with
  | checkpoint =>
    have read := optional_some (Position.ofJson?_toJson location.start) (by simp [Position.toJson, record])
    simp only [toJson, ofJson?]
    rw [fields?_record (by simp)]
    simp [required, List.lookup_cons, List.lookup_nil, start, read, restored, checkpoint, isCheckpoint]
  | evaluation kind =>
    have read (sect : Section) := optional_some (Section.ofJson?_toJson sect) (by simp [Section.toJson, record])
    have read' : Json.optional (wordIn? [("decision", EvaluationKind.decision), ("condition", .condition)])
        (some (.ofString kind.text)) = some (some kind) := by
      refine optional_some ?_ (by simp [ofString])
      cases kind <;> simp [EvaluationKind.text, List.lookup_cons]
    simp only [toJson, ofJson?]
    rw [fields?_record (by simp)]
    simp [required, List.lookup_cons, List.lookup_nil, read, read', restored, evaluation, isCheckpoint]

/-- The marker as a document keeps it. -/
def withoutScope (m : Marker) : Marker := { m with scopeEnd := none }

/-- Checkpoints are points and evaluations are sections. -/
inductive Regular : Marker → Prop
  | checkpoint (id : MarkerId) (position : Position) (scopeEnd : Option Position) :
      Regular { checkpoint id position with scopeEnd }
  | evaluation (id : MarkerId) (sect : Section) (kind : EvaluationKind) : Regular (evaluation id sect kind)

theorem Regular.restored_eq {m : Marker} (regular : m.Regular) : m.restored = m.withoutScope := by
  cases regular <;> rfl

theorem written_toJson (m : Marker) : Written m.toJson := by
  unfold toJson
  cases m.kind with
  | checkpoint => exact written_record (by simp [Written.number, written_ofString, Position.written_toJson])
  | evaluation kind => exact written_record (by simp [Written.number, written_ofString, Section.written_toJson])

end Marker

namespace ConditionTree

theorem written_toJson (t : ConditionTree) : Written t.toJson := by
  induction t with
  | condition id => exact written_record (by simp [Written.number, written_ofString])
  | not operand ih => exact written_record (by simp [written_ofString, ih])
  | join op left right marker ihl ihr =>
    refine written_record ?_
    cases marker <;> simp [Written.number, written_ofString, ihl, ihr]

theorem shape?_ofString (inner : Bool) (name : String) : shape? inner (.ofString name) = shapes.lookup name := by
  simp [shape?, ofString]

theorem lookup_shapes_text (op : Connective) : shapes.lookup op.text = some (.join op) := by
  cases op <;> simp [shapes, Connective.text, List.lookup_cons]

theorem optional_word? (id : MarkerId) : Json.optional word? (some (.ofNat id.toNat)) = some (some id) :=
  optional_some (word?_ofNat id) (by simp [ofNat])

/-- A tree is read back if there are levels enough for it. -/
theorem ofNested?_toJson (t : ConditionTree) (levels : Nat) (inner : Bool) :
    ofNested? levels inner t.toJson = if t.depth ≤ levels then some t else none := by
  induction t generalizing levels inner with
  | condition id =>
    cases levels with
    | zero => simp [ofNested?, depth]
    | succ levels =>
      rw [toJson, ofNested?, tagged?_record (by simp)]
      simp [shape?_ofString, shapes, List.lookup_cons, List.lookup_nil, fields?_record, required, depth]
  | not operand ih =>
    cases levels with
    | zero => simp [ofNested?, depth]
    | succ levels =>
      rw [toJson, ofNested?, tagged?_record (by simp)]
      simp [shape?_ofString, shapes, List.lookup_cons, List.lookup_nil, fields?_record, required, depth, ih]
      split <;> rfl
  | join op left right marker ihl ihr =>
    cases levels with
    | zero => simp [ofNested?, depth]
    | succ levels =>
      have operands : ofNested? (levels + 1) inner (join op left right marker).toJson =
          (ofNested? levels true left.toJson).bind fun l =>
            (ofNested? levels true right.toJson).bind fun r => some (.join op l r marker) := by
        cases marker with
        | none =>
          simp only [toJson, List.append_nil]
          rw [ofNested?, tagged?_record (by simp)]
          simp [shape?_ofString, lookup_shapes_text, List.lookup_cons, List.lookup_nil, fields?_record, required]
        | some id =>
          simp only [toJson, List.cons_append, List.nil_append]
          rw [ofNested?, tagged?_record (by simp)]
          simp [shape?_ofString, lookup_shapes_text, List.lookup_cons, List.lookup_nil, fields?_record, required,
            optional_word?]
      rw [operands, ihl, ihr, depth]
      by_cases l : left.depth ≤ levels
      · by_cases r : right.depth ≤ levels
        · rw [if_pos l, if_pos r, if_pos (by omega)]
          rfl
        · rw [if_pos l, if_neg r, if_neg (by omega)]
          rfl
      · have deep : ¬ max left.depth right.depth + 1 ≤ levels + 1 := by omega
        rw [if_neg l, if_neg deep]
        rfl

/-- A tree has a level of nesting for each of its nodes on the longest way. -/
theorem depth_toJson (t : ConditionTree) : t.toJson.depth = t.depth := by
  induction t with
  | condition id => simp [toJson, depth_record, ofNat, ofString, Json.depth, depth]
  | not operand ih => simp [toJson, depth_record, ofString, Json.depth, depth, ih]
  | join op left right marker ihl ihr =>
    cases marker <;> simp [toJson, depth_record, ofString, ofNat, Json.depth, depth, ihl, ihr]

theorem isInterpretable_toJson (t : ConditionTree) : t.toJson.isInterpretable = true := by
  induction t with
  | condition id => simp [toJson, isInterpretable_record, isInterpretable_ofNat, isInterpretable_ofString]
  | not operand ih => simp [toJson, isInterpretable_record, isInterpretable_ofString, ih]
  | join op left right marker ihl ihr =>
    cases marker <;>
      simp [toJson, isInterpretable_record, isInterpretable_ofNat, isInterpretable_ofString, ihl, ihr]

theorem ofJson?_toJson (t : ConditionTree) :
    ofJson? t.toJson = if t.depth ≤ maximalDepth then some t else none := by
  unfold ofJson?
  rw [depth_toJson, isInterpretable_toJson, ofNested?_toJson, Bool.and_true]
  split <;> simp_all

end ConditionTree

namespace Decision

theorem written_toJson (d : Decision) : Written d.toJson :=
  written_record (by simp [Written.number, ConditionTree.written_toJson])

theorem ofJson?_toJson (d : Decision) :
    ofJson? d.toJson = if d.tree.depth ≤ ConditionTree.maximalDepth then some d else none := by
  rw [toJson, ofJson?, fields?_record (by simp)]
  simp [required, List.lookup_cons, List.lookup_nil, ConditionTree.ofJson?_toJson]
  split <;> rfl

end Decision

namespace Document

/-- The document as it is read back. -/
def restored (d : Document) : Document := { d with markers := d.markers.map Marker.restored }

/-- The document as its file keeps it. -/
def withoutScopes (d : Document) : Document := { d with markers := d.markers.map Marker.withoutScope }

theorem restored_of_regular {d : Document} (regular : ∀ m ∈ d.markers, m.Regular) : d.restored = d.withoutScopes := by
  rw [restored, withoutScopes, List.map_congr_left fun m member => (regular m member).restored_eq]

/-- No condition tree is too deep to be read. -/
def IsShallow (d : Document) : Prop := ∀ decision ∈ d.decisions, decision.tree.depth ≤ ConditionTree.maximalDepth

instance (d : Document) : Decidable d.IsShallow :=
  inferInstanceAs (Decidable (∀ decision ∈ d.decisions, decision.tree.depth ≤ ConditionTree.maximalDepth))

theorem written_toJson (d : Document) : Written d.toJson := by
  refine written_record ?_
  have markers : Written (.array (d.markers.map Marker.toJson)) := by
    refine .array ?_
    intro json member
    obtain ⟨m, _, rfl⟩ := List.mem_map.mp member
    exact m.written_toJson
  have decisions : Written (.array (d.decisions.map Decision.toJson)) := by
    refine .array ?_
    intro json member
    obtain ⟨decision, _, rfl⟩ := List.mem_map.mp member
    exact decision.written_toJson
  simp [Written.number, written_ofString, markers, decisions]

/-- A document is read back unless a condition tree is too deep. -/
theorem ofJson?_toJson (d : Document) : ofJson? d.toJson = if d.IsShallow then some d.restored else none := by
  have markers := list?_map fun m (_ : m ∈ d.markers) => Marker.ofJson?_toJson m
  have decisions : list? Decision.ofJson? (.array (d.decisions.map Decision.toJson)) =
      if d.IsShallow then some d.decisions else none := list?_map_of_ite Decision.ofJson?_toJson d.decisions
  rw [toJson, ofJson?, fields?_record (by simp)]
  simp [required, defaulted, List.lookup_cons, List.lookup_nil, markers, decisions]
  by_cases shallow : d.IsShallow
  · rw [if_pos shallow, if_pos shallow]
    rfl
  · rw [if_neg shallow, if_neg shallow]
    rfl

theorem plainText?_file (codec : Codec) (d : Document) (compress : Bool) :
    plainText? (d.file codec compress) = some d.text := by
  unfold plainText? file
  cases compress with
  | true => simp only [if_true, codec.startsWith_pack, codec.unpack?_pack]
  | false =>
    have unmarked : Octets.startsWith Gzip.magic d.text = false := by
      rw [text, toJson, record, pretty]
      exact Octets.startsWith_false_of_head (by decide)
    simp [unmarked]

theorem firstRepeated_eq_none_iff (seen : List MarkerId) (markers : List Marker) :
    firstRepeated seen markers = none ↔ (markers.map Marker.id).Nodup ∧ ∀ m ∈ markers, m.id ∉ seen := by
  induction markers generalizing seen with
  | nil => simp [firstRepeated]
  | cons m markers ih =>
    rw [firstRepeated]
    by_cases old : m.id ∈ seen
    · simp [old]
    · rw [if_neg (by simpa using old), ih, List.map_cons, List.nodup_cons, List.forall_mem_cons]
      simp only [List.mem_cons, not_or, List.mem_map, not_exists, not_and]
      constructor
      · rintro ⟨nodup, apart⟩
        exact ⟨⟨fun n member => (apart n member).1, nodup⟩, old, fun n member => (apart n member).2⟩
      · rintro ⟨⟨first, nodup⟩, _, apart⟩
        exact ⟨nodup, fun n member => ⟨first n member, apart n member⟩⟩

/-- A document without fault: its ids are distinct, and its decisions refer to its markers. -/
theorem inconsistency?_eq_none_iff (d : Document) : d.inconsistency? = none ↔
    (d.markers.map Marker.id).Nodup ∧
      ∀ decision ∈ d.decisions, ∀ id ∈ decision.references, id ∈ d.markers.map Marker.id := by
  unfold inconsistency?
  cases repeated : firstRepeated [] d.markers with
  | some id =>
    have twice : ¬ (d.markers.map Marker.id).Nodup := by
      intro nodup
      rw [(firstRepeated_eq_none_iff [] d.markers).mpr ⟨nodup, by simp⟩] at repeated
      cases repeated
    simp [twice]
  | none =>
    have nodup := ((firstRepeated_eq_none_iff [] d.markers).mp repeated).1
    simp [nodup, List.findSome?_eq_none_iff]

theorem inconsistency?_restored (d : Document) : d.restored.inconsistency? = none ↔ d.inconsistency? = none := by
  have ids : d.restored.markers.map Marker.id = d.markers.map Marker.id := by
    rw [restored, List.map_map]
    rfl
  rw [inconsistency?_eq_none_iff, inconsistency?_eq_none_iff, ids]
  rfl

/-- A file is read if its document has the current format, is without fault and not too deep; what is read is the
document that was written. -/
theorem ofFile_eq_ok_iff (codec : Codec) (d : Document) (compress : Bool) (read : Document) :
    ofFile codec (d.file codec compress) = .ok read ↔
      d.IsShallow ∧ d.formatVersion = currentFormat ∧ d.inconsistency? = none ∧ read = d.restored := by
  rw [ofFile, plainText?_file]
  simp only [text, d.written_toJson.read?_pretty, Option.bind_some, ofJson?_toJson]
  by_cases shallow : d.IsShallow
  · have version : d.restored.formatVersion = d.formatVersion := rfl
    simp only [if_pos shallow, version]
    by_cases current : d.formatVersion = currentFormat
    · rw [if_neg (by simpa using current)]
      rw [← inconsistency?_restored]
      cases d.restored.inconsistency? with
      | some cause => simp
      | none => simp [shallow, current, eq_comm]
    · rw [if_pos (by simpa using current)]
      simp [current]
  · simp [shallow]

theorem eq_of_ofFile {codec : Codec} {d read : Document} (regular : ∀ m ∈ d.markers, m.Regular) {compress : Bool}
    (found : ofFile codec (d.file codec compress) = .ok read) : read = d.withoutScopes := by
  rw [((ofFile_eq_ok_iff codec d compress read).mp found).2.2.2, restored_of_regular regular]

end Document

end SourceCoverage
