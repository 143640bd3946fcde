import SourceCoverage.Probe
import SourceCoverage.Proofs.Utf8

namespace SourceCoverage

open Octets

theorem isDigit_of_mem_utf8EncodeChar {c : Char} (digit : c.isDigit = true) {b : UInt8}
    (member : b ∈ String.utf8EncodeChar c) : isDigit b = true := by
  simp only [Char.isDigit, Bool.and_eq_true, decide_eq_true_eq, ge_iff_le, UInt32.le_iff_toNat_le] at digit
  have bounds : 48 ≤ c.toNat ∧ c.toNat ≤ 57 := digit
  rcases Utf8.utf8EncodeChar_cases c with ⟨_, single⟩ | ⟨wide, _⟩
  · rw [single, List.mem_singleton] at member
    simp only [isDigit, member, Bool.and_eq_true, decide_eq_true_eq, UInt8.le_iff_toNat_le,
      Utf8.toNat_ofNat_of_lt (by omega : c.toNat < 256)]
    exact bounds
  · omega

/-- The decimal digits of an id. -/
def MarkerId.digits (id : MarkerId) : Octets := Utf8.encode (toString id)

namespace MarkerId

theorem mem_toList_toString {id : MarkerId} {c : Char} (member : c ∈ (toString id).toList) : c.isDigit = true := by
  have repr : toString id = Nat.repr id.toNat := rfl
  rw [repr, Nat.toList_repr] at member
  exact Nat.isDigit_of_mem_toDigits (by decide) (by decide) member

theorem isDigit_of_mem_digits {id : MarkerId} {b : UInt8} (member : b ∈ digits id) : isDigit b = true := by
  rw [digits, Utf8.encode_eq_flatMap, List.mem_flatMap] at member
  obtain ⟨c, inside, octet⟩ := member
  exact isDigit_of_mem_utf8EncodeChar (mem_toList_toString inside) octet

theorem digits_ne_nil (id : MarkerId) : digits id ≠ [] := by
  intro empty
  have text : toString id = "" := Utf8.encode_injective (empty.trans Utf8.encode_empty.symm)
  exact Nat.repr_ne_empty text

end MarkerId

namespace Probes

variable (probes : Probes) (id : MarkerId)

theorem encode_checkpoint : Utf8.encode (probes.checkpoint id) =
    Utf8.encode probes.names.checkpoint ++ ascii '(' :: (MarkerId.digits id ++ Utf8.encode "); ") := by
  have text : probes.checkpoint id = probes.names.checkpoint ++ "(" ++ toString id ++ "); " := rfl
  have bracket : Utf8.encode "(" = [ascii '('] := by decide
  simp [text, bracket, MarkerId.digits]

theorem encode_scopeOpen : Utf8.encode (probes.scopeOpen id) =
    Utf8.encode "\x7b " ++ (Utf8.encode probes.names.checkpoint ++
      ascii '(' :: (MarkerId.digits id ++ Utf8.encode "u); ")) := by
  have text : probes.scopeOpen id = "\x7b " ++ probes.names.checkpoint ++ ("(" ++ toString id ++ "u); ") := rfl
  have bracket : Utf8.encode "(" = [ascii '('] := by decide
  simp [text, bracket, MarkerId.digits]

theorem encode_evaluationOpen : Utf8.encode (probes.evaluationOpen id) =
    Utf8.encode probes.names.evaluation ++ ascii '(' :: (MarkerId.digits id ++ Utf8.encode ", (") := by
  have text : probes.evaluationOpen id = probes.names.evaluation ++ "(" ++ toString id ++ ", (" := rfl
  have bracket : Utf8.encode "(" = [ascii '('] := by decide
  simp [text, bracket, MarkerId.digits]

theorem encode_scopeClose : Utf8.encode probes.scopeClose = [ascii ' ', ascii '\x7d'] := by
  have text : probes.scopeClose = " \x7d" := rfl
  rw [text]
  decide

theorem encode_evaluationClose : ∃ behind, Utf8.encode probes.evaluationClose = ascii ')' :: behind ∧
    (ascii ')' :: behind).getLast? = some (ascii ')') := by
  unfold evaluationClose
  cases probes.dialect with
  | c => exact ⟨Utf8.encode " ? 1 : 0)", by decide, by decide⟩
  | cpp => exact ⟨Utf8.encode " ? true : false)", by decide, by decide⟩

end Probes

/-- Neither probe name has a newline. -/
def ProbeNames.OnOneLine (names : ProbeNames) : Prop :=
  '\n' ∉ names.checkpoint.toList ∧ '\n' ∉ names.evaluation.toList

theorem newline_notMem_encode {s : String} (onOneLine : '\n' ∉ s.toList) : newline ∉ Utf8.encode s := by
  intro member
  exact onOneLine (Utf8.ascii_mem_encode (by decide) member)

theorem newline_notMem_digits (id : MarkerId) : newline ∉ MarkerId.digits id := by
  intro member
  have digit := MarkerId.isDigit_of_mem_digits member
  simp [isDigit, newline] at digit

end SourceCoverage
