import Mathlib.Data.List.Induction
import Mathlib.Data.List.Nodup
import SourceCoverage.Proofs.Ledger.Agreement

namespace SourceCoverage

namespace Ledger

/-- What an entry is answered with: the number of the marker, nothing for a decision, or what it would repeat. -/
abbrev Answer := Except Duplicate (Option MarkerId)

/-- The number that is given with an answer. -/
def Answer.added? : Answer → Option MarkerId
  | .ok id => id
  | .error _ => none

/-- Makes an entry. -/
def make (ledger : Ledger) (entry : Entry) : Answer × Ledger := entry.register.run ledger

/-- Makes entries one after the other. -/
def makeAll (ledger : Ledger) : List Entry → List Answer × Ledger
  | [] => ([], ledger)
  | entry :: entries =>
    let (answer, ledger') := ledger.make entry
    let (answers, last) := ledger'.makeAll entries
    (answer :: answers, last)

/-- The spot that an entry asks for. -/
def Entry.spot? : Entry → Option Spot
  | .checkpoint position => some (.checkpoint position)
  | .braced sect => some (.checkpoint sect.start)
  | .evaluation sect kind => some (.evaluation sect kind)
  | .decision _ => none

/-- The marker that an entry adds under a number. -/
def Entry.marker? (id : MarkerId) : Entry → Option Marker
  | .checkpoint position => some (.checkpoint id position)
  | .braced sect => some { Marker.checkpoint id sect.start with scopeEnd := some sect.stop }
  | .evaluation sect kind => some (.evaluation id sect kind)
  | .decision _ => none

def Entry.decision? : Entry → Option Decision
  | .decision record => some record
  | _ => none

/-- The markers of the entries that were answered with a number. -/
def entered (entries : List Entry) (answers : List Answer) : List Marker :=
  (entries.zip answers).filterMap fun (entry, answer) => answer.added?.bind fun id => entry.marker? id

/-- Before the entry at an index, a spot was given to an entry that was answered with a number. -/
def Holds (entries : List Entry) (answers : List Answer) (index : Nat) (spot : Spot) (id : MarkerId) : Prop :=
  ∃ earlier < index, ∃ entry, entries[earlier]? = some entry ∧ entry.spot? = some spot ∧
    answers[earlier]? = some (.ok (some id))

variable {ledger : Ledger} {entry : Entry} {spot : Spot} {m : Marker} {id : MarkerId}

theorem Entry.decision?_eq_none (asks : entry.spot? = some spot) : entry.decision? = none := by
  cases entry with
  | decision record => cases asks
  | _ => rfl

/-- Every entry but a decision asks for one spot. -/
theorem Entry.asks_register (asks : entry.spot? = some spot) : ∃ registration marker,
    entry.register = some <$> registration ∧ registration.Asks spot marker ∧ spot.Takes marker ∧
      ∀ id, entry.marker? id = some (marker id) := by
  cases entry with
  | checkpoint position =>
    cases asks
    exact ⟨_, _, rfl, Registration.asks_checkpoint position none, takes_checkpoint position none, fun _ => rfl⟩
  | braced sect =>
    cases asks
    exact ⟨_, _, rfl, Registration.asks_checkpoint sect.start (some sect.stop),
      takes_checkpoint sect.start (some sect.stop), fun _ => rfl⟩
  | evaluation sect kind =>
    cases asks
    exact ⟨_, _, rfl, Registration.asks_evaluation sect kind, takes_evaluation sect kind, fun _ => rfl⟩
  | decision record => cases asks

theorem Entry.spot?_marker (made : entry.marker? id = some m) : m.spot? = entry.spot? ∧ m.id = id := by
  cases asks : entry.spot? with
  | none =>
    cases entry with
    | decision record => cases made
    | _ => cases asks
  | some spot =>
    obtain ⟨-, marker, -, -, takes, markers⟩ := Entry.asks_register asks
    obtain rfl : marker id = m := Option.some.inj ((markers id).symm.trans made)
    exact ⟨takes.spot id, takes.id id⟩

/-- A marker is added to a free spot under the next number. -/
theorem make_of_free (asks : entry.spot? = some spot) (free : ledger.number? spot = none) :
    ∃ marker, spot.Takes marker ∧ entry.marker? (ledger.lastId + 1) = some (marker (ledger.lastId + 1)) ∧
      ledger.make entry = (.ok (some (ledger.lastId + 1)), ledger.enter spot marker) := by
  obtain ⟨registration, marker, register, asks, takes, markers⟩ := Entry.asks_register asks
  refine ⟨marker, takes, markers _, ?_⟩
  rw [make, register, map_eq_pure_bind, Registration.run_bind_of_ok (asks.free ledger free)]
  rfl

/-- A spot that is taken keeps its marker, and no number is used up. -/
theorem make_of_taken (asks : entry.spot? = some spot) (taken : ledger.number? spot = some id) :
    ledger.make entry = (.error (spot.taken id), ledger) := by
  obtain ⟨registration, marker, register, asks, -, -⟩ := Entry.asks_register asks
  rw [make, register, map_eq_pure_bind, Registration.run_bind_of_error (asks.taken ledger id taken)]

theorem make_of_decision (ledger : Ledger) (asks : entry.spot? = none) : ∃ record, entry = .decision record ∧
    ledger.make entry = (.ok none, { ledger with decisions := ledger.decisions ++ [record] }) := by
  cases entry with
  | decision record => exact ⟨record, rfl, rfl⟩
  | checkpoint position => cases asks
  | braced sect => cases asks
  | evaluation sect kind => cases asks

/-- A refused entry changes nothing: neither the counter, nor a marker, nor what is looked up. -/
theorem make_eq_of_error {duplicate : Duplicate} (refused : (ledger.make entry).1 = .error duplicate) :
    (ledger.make entry).2 = ledger := by
  cases asks : entry.spot? with
  | none =>
    obtain ⟨record, -, made⟩ := make_of_decision ledger asks
    rw [made] at refused
    cases refused
  | some spot =>
    cases found : ledger.number? spot with
    | none =>
      obtain ⟨marker, -, -, made⟩ := make_of_free asks found
      rw [made] at refused
      cases refused
    | some id => rw [make_of_taken asks found]

theorem makeAll_append (ledger : Ledger) (entries more : List Entry) :
    ledger.makeAll (entries ++ more) =
      ((ledger.makeAll entries).1 ++ ((ledger.makeAll entries).2.makeAll more).1,
        ((ledger.makeAll entries).2.makeAll more).2) := by
  induction entries generalizing ledger with
  | nil => rfl
  | cons entry entries ih =>
    simp only [List.cons_append, makeAll]
    rw [ih]

theorem length_makeAll (ledger : Ledger) (entries : List Entry) :
    (ledger.makeAll entries).1.length = entries.length := by
  induction entries generalizing ledger with
  | nil => rfl
  | cons entry entries ih => exact congrArg (· + 1) (ih _)

/-- Without a refused entry, all other answers and the ledger at the end are the same. -/
theorem makeAll_eraseIdx {entries : List Entry} {i : Nat} {duplicate : Duplicate}
    (refused : (ledger.makeAll entries).1[i]? = some (.error duplicate)) :
    ledger.makeAll (entries.eraseIdx i) = ((ledger.makeAll entries).1.eraseIdx i, (ledger.makeAll entries).2) := by
  induction entries generalizing ledger i with
  | nil => cases refused
  | cons entry entries ih =>
    cases i with
    | zero =>
      have unchanged : (ledger.make entry).2 = ledger := make_eq_of_error (Option.some.inj refused)
      simp only [List.eraseIdx_cons_zero, makeAll, unchanged]
    | succ i =>
      have later : ((ledger.make entry).2.makeAll entries).1[i]? = some (.error duplicate) := refused
      simp only [List.eraseIdx_cons_succ, makeAll, ih later]

section Entered

variable {entries more : List Entry} {answers others : List Answer}

theorem entered_append (length : answers.length = entries.length) :
    entered (entries ++ more) (answers ++ others) = entered entries answers ++ entered more others := by
  rw [entered, List.zip_append length.symm, List.filterMap_append]
  rfl

theorem mem_entered_iff : m ∈ entered entries answers ↔ ∃ (i : Nat) (entry : Entry) (id : MarkerId),
    entries[i]? = some entry ∧ answers[i]? = some (.ok (some id)) ∧ entry.marker? id = some m := by
  rw [entered, List.mem_filterMap]
  constructor
  · rintro ⟨⟨entry, answer⟩, member, made⟩
    obtain ⟨i, atI⟩ := List.mem_iff_getElem?.mp member
    obtain ⟨atEntry, atAnswer⟩ := List.getElem?_zip_eq_some.mp atI
    obtain ⟨id, added, made⟩ := Option.bind_eq_some_iff.mp made
    cases answer with
    | error duplicate => cases added
    | ok given =>
      cases added
      exact ⟨i, entry, id, atEntry, atAnswer, made⟩
  · rintro ⟨i, entry, id, atEntry, atAnswer, made⟩
    have atI : (entries.zip answers)[i]? = some (entry, .ok (some id)) :=
      List.getElem?_zip_eq_some.mpr ⟨atEntry, atAnswer⟩
    exact ⟨_, List.mem_of_getElem? atI, made⟩

end Entered

/-- What is in a ledger is what the answers tell: the markers that were given a number, in their order, and all
decisions. -/
structure Keeps (entries : List Entry) (answers : List Answer) (ledger : Ledger) : Prop where
  agrees : ledger.Agrees
  markers : ledger.markers = entered entries answers
  ids : ledger.markers.map Marker.id = answers.filterMap Answer.added?
  decisions : ledger.decisions = entries.filterMap Entry.decision?

section Keeps

variable {entries : List Entry} {answers : List Answer}

theorem Keeps.enter (keeps : Keeps entries answers ledger) (length : answers.length = entries.length)
    (asks : entry.spot? = some spot) (free : ledger.number? spot = none) {marker : MarkerId → Marker}
    (takes : spot.Takes marker) (made : entry.marker? (ledger.lastId + 1) = some (marker (ledger.lastId + 1))) :
    Keeps (entries ++ [entry]) (answers ++ [.ok (some (ledger.lastId + 1))]) (ledger.enter spot marker) := by
  refine ⟨keeps.agrees.enter takes free, ?_, ?_, ?_⟩
  · rw [entered_append length, ← keeps.markers, markers_enter]
    exact congrArg (ledger.markers ++ ·) (by simp [entered, Answer.added?, made])
  · rw [markers_enter, List.map_append, keeps.ids, List.filterMap_append, List.map_singleton, takes.id]
    rfl
  · rw [List.filterMap_append, ← keeps.decisions, decisions_enter]
    simp [Entry.decision?_eq_none asks]

/-- An answer without a number leaves the markers alone. -/
theorem Keeps.pass (keeps : Keeps entries answers ledger) (length : answers.length = entries.length) (entry : Entry)
    {answer : Answer} (unnumbered : answer.added? = none) :
    Keeps (entries ++ [entry]) (answers ++ [answer])
      { ledger with decisions := ledger.decisions ++ entry.decision?.toList } := by
  refine ⟨keeps.agrees.record _, ?_, ?_, ?_⟩
  · rw [entered_append length, ← keeps.markers]
    simp [entered, unnumbered]
  · rw [List.filterMap_append, ← keeps.ids]
    simp [unnumbered]
  · rw [List.filterMap_append, keeps.decisions]
    cases found : entry.decision? <;> simp [found]

theorem Keeps.make (keeps : Keeps entries answers ledger) (length : answers.length = entries.length) (entry : Entry) :
    Keeps (entries ++ [entry]) (answers ++ [(ledger.make entry).1]) (ledger.make entry).2 := by
  cases asks : entry.spot? with
  | none =>
    obtain ⟨record, rfl, made⟩ := make_of_decision ledger asks
    rw [made]
    exact keeps.pass length _ rfl
  | some spot =>
    cases found : ledger.number? spot with
    | none =>
      obtain ⟨marker, takes, marked, made⟩ := make_of_free asks found
      rw [made]
      exact keeps.enter length asks found takes marked
    | some id =>
      have unrecorded : ledger.decisions ++ entry.decision?.toList = ledger.decisions := by
        rw [Entry.decision?_eq_none asks, Option.toList_none, List.append_nil]
      have passed := keeps.pass length entry (show Answer.added? (.error (spot.taken id)) = none from rfl)
      rw [unrecorded] at passed
      rw [make_of_taken asks found]
      exact passed

/-- Whatever entries are made into a fresh ledger, it keeps what was not refused. -/
theorem keeps_makeAll (hash : String) (entries : List Entry) :
    Keeps entries (({ sourceHash := hash } : Ledger).makeAll entries).1
      (({ sourceHash := hash } : Ledger).makeAll entries).2 := by
  induction entries using List.reverseRecOn with
  | nil => exact ⟨agrees_empty hash, rfl, rfl, rfl⟩
  | append_singleton entries entry ih =>
    rw [makeAll_append]
    exact ih.make (length_makeAll _ _) entry

/-- A spot is held by an earlier entry exactly if it is looked up. -/
theorem Keeps.holds_iff (keeps : Keeps entries answers ledger) (length : answers.length = entries.length)
    (more : List Entry) (others : List Answer) :
    Holds (entries ++ more) (answers ++ others) entries.length spot id ↔
      ledger.number? spot = some id := by
  rw [keeps.agrees.lookup, keeps.markers]
  constructor
  · rintro ⟨i, earlier, entry, atEntry, asks, answered⟩
    rw [List.getElem?_append_left earlier] at atEntry
    rw [List.getElem?_append_left (length ▸ earlier)] at answered
    obtain ⟨m, made⟩ : ∃ m, entry.marker? id = some m := by
      cases entry with
      | decision record => cases asks
      | _ => exact ⟨_, rfl⟩
    obtain ⟨same, numbered⟩ := Entry.spot?_marker made
    exact ⟨m, mem_entered_iff.mpr ⟨i, entry, id, atEntry, answered, made⟩, same.trans asks, numbered⟩
  · rintro ⟨m, member, spots, rfl⟩
    obtain ⟨i, entry, id, atEntry, answered, made⟩ := mem_entered_iff.mp member
    obtain ⟨same, rfl⟩ := Entry.spot?_marker made
    have earlier : i < entries.length := (List.getElem?_eq_some_iff.mp atEntry).1
    refine ⟨i, earlier, entry, ?_, same.symm.trans spots, ?_⟩
    · rw [List.getElem?_append_left earlier, atEntry]
    · rw [List.getElem?_append_left (length ▸ earlier), answered]

theorem Keeps.length_added (keeps : Keeps entries answers ledger) :
    (answers.filterMap Answer.added?).length = ledger.markers.length := by
  rw [← keeps.ids, List.length_map]

theorem Keeps.nodup_ids (keeps : Keeps entries answers ledger)
    (few : (answers.filterMap Answer.added?).length < 2 ^ 32) : (ledger.markers.map Marker.id).Nodup := by
  rw [keeps.length_added] at few
  rw [keeps.agrees.ids]
  exact (MarkerId.pairwise_after (by omega)).imp UInt32.ne_of_lt

end Keeps

/-- The answers to the entries that are made into a fresh ledger. -/
structure Answered (entries : List Entry) (answers : List Answer) : Prop where
  length : answers.length = entries.length
  /-- The markers are numbered through. -/
  numbers : (answers.filterMap Answer.added?).map UInt32.toNat =
    List.range' 1 (answers.filterMap Answer.added?).length
  decisions : ∀ (i : Nat) record, entries[i]? = some (.decision record) → answers[i]? = some (.ok none)
  /-- A spot that nothing holds is given. -/
  added : ∀ (i : Nat) entry spot, entries[i]? = some entry → entry.spot? = some spot →
    ((∃ id, answers[i]? = some (.ok (some id))) ↔ ∀ id, ¬ Holds entries answers i spot id)
  /-- Any other is refused, and the refusal names what holds it. -/
  refused : ∀ (i : Nat) entry spot, entries[i]? = some entry → entry.spot? = some spot → ∀ duplicate,
    (answers[i]? = some (.error duplicate) ↔ ∃ id, Holds entries answers i spot id ∧ duplicate = spot.taken id)

section Answered

variable {hash : String} {entries : List Entry} {i : Nat}

/-- An entry is answered by a ledger in which the spots are held that the earlier answers have given. -/
theorem answer_at (hash : String) (atEntry : entries[i]? = some entry) : ∃ ledger : Ledger,
    (({ sourceHash := hash } : Ledger).makeAll entries).1[i]? = some (ledger.make entry).1 ∧
      ∀ spot id, Holds entries (({ sourceHash := hash } : Ledger).makeAll entries).1 i spot id ↔
        ledger.number? spot = some id := by
  obtain ⟨inside, rfl⟩ := List.getElem?_eq_some_iff.mp atEntry
  obtain ⟨before, after, divided, length⟩ : ∃ before after, entries = before ++ entries[i] :: after ∧
    before.length = i :=
    ⟨entries.take i, entries.drop (i + 1), by simp, List.length_take_of_le inside.le⟩
  generalize entries[i] = entry at divided
  subst divided length
  have keeps := keeps_makeAll hash before
  have lengths := length_makeAll { sourceHash := hash } before
  rw [makeAll_append]
  refine ⟨(({ sourceHash := hash } : Ledger).makeAll before).2, ?_, fun spot id => ?_⟩
  · rw [← lengths, List.getElem?_append_right (Nat.le_refl _), Nat.sub_self]
    rfl
  · exact keeps.holds_iff lengths _ _

theorem answered_makeAll
    (few : ((({ sourceHash := hash } : Ledger).makeAll entries).1.filterMap Answer.added?).length < 2 ^ 32) :
    Answered entries (({ sourceHash := hash } : Ledger).makeAll entries).1 where
  length := length_makeAll _ _
  numbers := by
    have keeps := keeps_makeAll hash entries
    rw [keeps.length_added] at few
    rw [keeps.length_added, ← keeps.ids, keeps.agrees.ids, MarkerId.map_toNat_after (by omega)]
  decisions i record atEntry := by
    obtain ⟨ledger, answer, -⟩ := answer_at hash atEntry
    exact answer
  added i entry spot atEntry asks := by
    obtain ⟨ledger, answer, holds⟩ := answer_at hash atEntry
    rw [answer]
    simp only [holds]
    cases found : ledger.number? spot with
    | none =>
      obtain ⟨marker, -, -, made⟩ := make_of_free asks found
      simp [made]
    | some id => simp [make_of_taken asks found]
  refused i entry spot atEntry asks duplicate := by
    obtain ⟨ledger, answer, holds⟩ := answer_at hash atEntry
    rw [answer]
    simp only [holds]
    cases found : ledger.number? spot with
    | none =>
      obtain ⟨marker, -, -, made⟩ := make_of_free asks found
      simp [made]
    | some id => simp [make_of_taken asks found, eq_comm]

end Answered

/-- Whatever entries are made into a fresh ledger, as long as there are numbers for its markers: counter, markers and
look-ups agree, the answers are as they should be, a refusal changes nothing, and the document has what was not
refused, each marker and each decision once. -/
theorem account_makeAll (hash : String) (entries : List Entry)
    (few : ((({ sourceHash := hash } : Ledger).makeAll entries).1.filterMap Answer.added?).length < 2 ^ 32) :
    let answers := (({ sourceHash := hash } : Ledger).makeAll entries).1
    let ledger := (({ sourceHash := hash } : Ledger).makeAll entries).2
    ledger.Agrees ∧ Answered entries answers ∧
      (∀ (i : Nat) duplicate, answers[i]? = some (.error duplicate) →
        ({ sourceHash := hash } : Ledger).makeAll (entries.eraseIdx i) = (answers.eraseIdx i, ledger)) ∧
      ledger.finalize.markers.Perm (entered entries answers) ∧ ledger.finalize.markers.Nodup ∧
      ledger.finalize.decisions.Perm (entries.filterMap Entry.decision?) := by
  intro answers ledger
  have keeps := keeps_makeAll hash entries
  have sorted : ledger.finalize.markers.Perm ledger.markers := List.mergeSort_perm _ _
  refine ⟨keeps.agrees, answered_makeAll few, fun i duplicate => makeAll_eraseIdx, ?_, ?_, ?_⟩
  · rw [← keeps.markers]
    exact sorted
  · rw [sorted.nodup_iff]
    exact (keeps.nodup_ids few).of_map _
  · rw [← keeps.decisions]
    exact List.mergeSort_perm _ _

/-- A braced checkpoint at the position of another one, and a decision that stands for its own condition. -/
theorem account_makeAll_repeated :
    let entries : List Entry := [.checkpoint ⟨3, 5⟩, .braced ⟨⟨3, 5⟩, ⟨3, 12⟩⟩, .braced ⟨⟨3, 6⟩, ⟨3, 12⟩⟩,
      .evaluation ⟨⟨4, 9⟩, ⟨4, 14⟩⟩ .condition, .evaluation ⟨⟨4, 9⟩, ⟨4, 14⟩⟩ .condition, .decision ⟨3, .condition 3⟩]
    let answers := (({ sourceHash := "" } : Ledger).makeAll entries).1
    let ledger := (({ sourceHash := "" } : Ledger).makeAll entries).2
    (answers = [.ok (some 1), .error (.checkpoint ⟨3, 5⟩ 1), .ok (some 2), .ok (some 3),
      .error (.evaluation ⟨⟨4, 9⟩, ⟨4, 14⟩⟩ .condition 3), .ok none]) ∧
      Answered entries answers ∧ ledger.finalize.markers.Nodup ∧
      ledger.finalize.decisions.Perm [⟨3, .condition 3⟩] := by
  intro entries answers ledger
  obtain ⟨-, answered, -, -, once, decisions⟩ := account_makeAll "" entries (by decide)
  exact ⟨rfl, answered, once, decisions⟩

end Ledger

end SourceCoverage
