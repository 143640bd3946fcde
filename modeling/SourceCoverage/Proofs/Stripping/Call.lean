import Mathlib.Data.List.TakeWhile
import SourceCoverage.Proofs.Probe
import SourceCoverage.Proofs.Stripping.Token
import SourceCoverage.Settings.File

namespace SourceCoverage

open Octets Token

/-- A word that does not start with a digit. -/
def IsName (name : Octets) : Prop :=
  ∃ b tail, name = b :: tail ∧ isWordOctet b = true ∧ isDigit b = false ∧ ∀ c ∈ tail, isWordOctet c = true

/-- Both names of probes are C identifiers. -/
def ProbeNames.AreIdentifiers (names : ProbeNames) : Prop :=
  Overrides.isIdentifier names.checkpoint = true ∧ Overrides.isIdentifier names.evaluation = true

theorem utf8EncodeChar_of_isIdentifierStart {c : Char} (start : Overrides.isIdentifierStart c = true) :
    ∃ b, String.utf8EncodeChar c = [b] ∧ isWordOctet b = true ∧ isDigit b = false := by
  have letter : c.isAlpha = (decide (c.val ≥ 'A'.val ∧ c.val ≤ 'Z'.val) ||
      decide (c.val ≥ 'a'.val) && decide (c.val ≤ 'z'.val)) := rfl
  simp only [Overrides.isIdentifierStart, letter, Bool.or_eq_true, Bool.and_eq_true, decide_eq_true_eq, beq_iff_eq,
    UInt32.le_iff_toNat_le, ge_iff_le] at start
  have bounds : c.toNat = 95 ∨ (65 ≤ c.toNat ∧ c.toNat ≤ 90) ∨ 97 ≤ c.toNat ∧ c.toNat ≤ 122 := by
    rcases start with rfl | letter
    · exact Or.inl rfl
    · exact Or.inr letter
  rcases Utf8.utf8EncodeChar_cases c with ⟨_, single⟩ | ⟨wide, _⟩
  · refine ⟨_, single, ?_, ?_⟩
    · simp only [isWordOctet, isAlphanumeric, isLetter, ascii, Bool.or_eq_true, beq_iff_eq, Bool.and_eq_true,
        decide_eq_true_eq, UInt8.le_iff_toNat_le, ← UInt8.toNat_inj,
        Utf8.toNat_ofNat_of_lt (by omega : c.toNat < 256)]
      rcases bounds with under | letter
      · exact Or.inl under
      · exact Or.inr (Or.inr letter)
    · simp only [isDigit, Bool.and_eq_false_iff, decide_eq_false_iff_not, UInt8.le_iff_toNat_le,
        Utf8.toNat_ofNat_of_lt (by omega : c.toNat < 256), UInt8.reduceToNat]
      omega
  · omega

theorem isWordOctet_of_mem_utf8EncodeChar {c : Char}
    (part : (Overrides.isIdentifierStart c || c.isDigit) = true) {b : UInt8}
    (member : b ∈ String.utf8EncodeChar c) : isWordOctet b = true := by
  rcases Bool.or_eq_true_iff.mp part with start | digit
  · obtain ⟨b', single, word, _⟩ := utf8EncodeChar_of_isIdentifierStart start
    rw [single, List.mem_singleton] at member
    rwa [member]
  · have digit' := isDigit_of_mem_utf8EncodeChar digit member
    simp [isWordOctet, isAlphanumeric, digit']

theorem isName_encode {name : String} (identifier : Overrides.isIdentifier name = true) :
    IsName (Utf8.encode name) := by
  unfold Overrides.isIdentifier at identifier
  rw [Utf8.encode_eq_flatMap]
  split at identifier
  · simp at identifier
  · rename_i c rest chars
    rw [chars, List.flatMap_cons]
    obtain ⟨start, others⟩ := Bool.and_eq_true_iff.mp identifier
    obtain ⟨b, single, word, letter⟩ := utf8EncodeChar_of_isIdentifierStart start
    refine ⟨b, rest.flatMap String.utf8EncodeChar, by rw [single]; rfl, word, letter, ?_⟩
    intro octet member
    obtain ⟨d, inside, octet⟩ := List.mem_flatMap.mp member
    exact isWordOctet_of_mem_utf8EncodeChar (List.all_eq_true.mp others d inside) octet

namespace Probes

/-- A call is recognised exactly where its text stands. -/
theorem callAt?_eq_some_iff {name after : String} {text : Octets} {call : Call} {c : UInt8} {closing : Octets}
    (closes : Utf8.encode after = c :: closing) (stop : isDigit c = false) :
    callAt? name after text = some call ↔
      (∃ rest, text = Utf8.encode name ++ ascii '(' :: (call.id ++ (Utf8.encode after ++ rest))) ∧
        call.id ≠ [] ∧ (∀ b ∈ call.id, isDigit b = true) ∧
        call.length = (Utf8.encode name).length + 1 + call.id.length + (Utf8.encode after).length := by
  obtain ⟨id, length⟩ := call
  simp only [callAt?, bind, Option.bind_eq_some_iff, after?_eq_some_iff]
  constructor
  · rintro ⟨_, rfl, rest, rfl, found⟩
    rw [Option.ite_none_right_eq_some] at found
    obtain ⟨found, same⟩ := found
    obtain ⟨rfl, rfl⟩ := Call.mk.inj (Option.some.inj same)
    simp only [Bool.and_eq_true, Bool.not_eq_true', List.isEmpty_eq_false_iff] at found
    obtain ⟨behind, split⟩ := startsWith_iff.mp found.2
    refine ⟨⟨behind, ?_⟩, found.1, fun b member => List.mem_takeWhile_imp member, rfl⟩
    have whole := List.prefix_iff_eq_append.mp (List.takeWhile_prefix (l := rest) isDigit)
    rw [← split, whole]
    rfl
  · rintro ⟨⟨rest, rfl⟩, nonempty, digits, rfl⟩
    refine ⟨ascii '(' :: (id ++ (Utf8.encode after ++ rest)), rfl, id ++ (Utf8.encode after ++ rest), rfl, ?_⟩
    have taken : (id ++ (Utf8.encode after ++ rest)).takeWhile isDigit = id := by
      refine takeWhile_append_of_stop digits ?_
      intro b first
      rw [closes] at first
      cases first
      exact stop
    have filled : id.isEmpty = false := List.isEmpty_eq_false_iff.mpr nonempty
    have found : startsWith (Utf8.encode after) (Utf8.encode after ++ rest) = true := startsWith_append _ _
    simp only [taken, filled, List.drop_left, found, Bool.not_false, Bool.and_true, if_true]

/-- The word with which a text of a call starts is the name of the call. -/
theorem takeWhile_isWordOctet {name : Octets} (isName : IsName name) (rest : Octets) :
    (name ++ ascii '(' :: rest).takeWhile isWordOctet = name := by
  obtain ⟨b, tail, rfl, word, _, others⟩ := isName
  refine takeWhile_append_of_stop ?_ ?_
  · intro c member
    rcases List.mem_cons.mp member with rfl | later
    · exact word
    · exact others c later
  · intro c first
    cases first
    decide

/-- A text that starts with another word is no call. -/
theorem callAt?_eq_none_of_word {name after : String} {text : Octets} (isName : IsName (Utf8.encode name))
    (differs : text.takeWhile isWordOctet ≠ Utf8.encode name) : callAt? name after text = none := by
  cases found : callAt? name after text with
  | none => rfl
  | some call =>
    exfalso
    simp only [callAt?, bind, Option.bind_eq_some_iff, after?_eq_some_iff] at found
    obtain ⟨_, rfl, rest, rfl, _⟩ := found
    exact differs (takeWhile_isWordOctet isName rest)

/-- A text that starts with no letter is no call. -/
theorem callAt?_eq_none_of_head {name after : String} {text : Octets} (isName : IsName (Utf8.encode name))
    (differs : ∀ b, text.head? = some b → isWordOctet b = false ∨ isDigit b = true) :
    callAt? name after text = none := by
  refine callAt?_eq_none_of_word isName ?_
  obtain ⟨b, tail, octets, word, letter, _⟩ := isName
  rw [octets]
  intro same
  cases text with
  | nil => simp at same
  | cons c text =>
    by_cases inside : isWordOctet c = true
    · rw [List.takeWhile_cons_of_pos inside] at same
      cases same
      rcases differs _ rfl with apart | digit
      · simp [inside] at apart
      · simp [letter] at digit
    · rw [List.takeWhile_cons_of_neg inside] at same
      simp at same

/-- A call with something else behind its digits is not taken for this call. -/
theorem callAt?_eq_none_of_closing {name name' after after' : String} {c c' : UInt8} {closing closing' : Octets}
    (isName : IsName (Utf8.encode name)) (isName' : IsName (Utf8.encode name'))
    (closes : Utf8.encode after = c :: closing) (closes' : Utf8.encode after' = c' :: closing')
    (stop : isDigit c = false) (stop' : isDigit c' = false) (differs : c ≠ c') (id : MarkerId) (rest : Octets) :
    callAt? name after (Utf8.encode name' ++
      ascii '(' :: (MarkerId.digits id ++ (Utf8.encode after' ++ rest))) = none := by
  cases found : callAt? name after (Utf8.encode name' ++
      ascii '(' :: (MarkerId.digits id ++ (Utf8.encode after' ++ rest))) with
  | none => rfl
  | some call =>
    exfalso
    obtain ⟨⟨rest', same⟩, _, digits, _⟩ := (callAt?_eq_some_iff closes stop).mp found
    have names := congrArg (List.takeWhile isWordOctet) same
    rw [takeWhile_isWordOctet isName, takeWhile_isWordOctet isName'] at names
    rw [names] at same
    have behind := List.tail_eq_of_cons_eq (List.append_cancel_left same)
    have first := congrArg (List.takeWhile isDigit) behind
    rw [takeWhile_append_of_stop (fun b member => MarkerId.isDigit_of_mem_digits member)
        (by rw [closes']; rintro b ⟨⟩; exact stop'),
      takeWhile_append_of_stop digits (by rw [closes]; rintro b ⟨⟩; exact stop)] at first
    rw [first, closes, closes'] at behind
    exact differs (List.head_eq_of_cons_eq (List.append_cancel_left behind)).symm

theorem callAt?_eq_some (name : String) {after : String} {c : UInt8} {closing : Octets}
    (closes : Utf8.encode after = c :: closing) (stop : isDigit c = false) (id : MarkerId) (rest : Octets) :
    callAt? name after (Utf8.encode name ++ ascii '(' :: (MarkerId.digits id ++ (Utf8.encode after ++ rest))) =
      some ⟨MarkerId.digits id, (Utf8.encode name).length + 1 + (MarkerId.digits id).length +
        (Utf8.encode after).length⟩ :=
  (callAt?_eq_some_iff closes stop).mpr ⟨⟨rest, rfl⟩, MarkerId.digits_ne_nil id,
    fun _ member => MarkerId.isDigit_of_mem_digits member, rfl⟩

end Probes

end SourceCoverage
