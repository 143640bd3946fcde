import Mathlib.Data.List.Basic
import SourceCoverage.Json.Reader
import SourceCoverage.Proofs.Octets
import SourceCoverage.Proofs.Utf8

namespace SourceCoverage.Json

open Octets

/-- The characters that an octet is escaped to: itself, a short escape, or four hexadecimal digits. -/
theorem escapeOctet_cases (b : UInt8) :
    (escapeOctet b = [b] ∧ b ≠ ascii '"' ∧ b ≠ ascii '\\' ∧ ¬ b < 32) ∨
      (∃ e, escapeOctet b = [ascii '\\', e] ∧ shortEscape? e = some b ∧ e ≠ ascii 'u') ∨
      (b < 32 ∧ escapeOctet b =
        [ascii '\\', ascii 'u', ascii '0', ascii '0', hexOctet (b.toNat / 16), hexOctet (b.toNat % 16)]) := by
  unfold escapeOctet
  split_ifs with quote backslash backspace tab newline feed ret control
  · exact Or.inr (Or.inl ⟨ascii '"', rfl, by rw [beq_iff_eq.mp quote]; decide⟩)
  · exact Or.inr (Or.inl ⟨ascii '\\', rfl, by rw [beq_iff_eq.mp backslash]; decide⟩)
  · exact Or.inr (Or.inl ⟨ascii 'b', rfl, by rw [beq_iff_eq.mp backspace]; decide⟩)
  · exact Or.inr (Or.inl ⟨ascii 't', rfl, by rw [beq_iff_eq.mp tab]; decide⟩)
  · exact Or.inr (Or.inl ⟨ascii 'n', rfl, by rw [beq_iff_eq.mp newline]; decide⟩)
  · exact Or.inr (Or.inl ⟨ascii 'f', rfl, by rw [beq_iff_eq.mp feed]; decide⟩)
  · exact Or.inr (Or.inl ⟨ascii 'r', rfl, by rw [beq_iff_eq.mp ret]; decide⟩)
  · exact Or.inr (Or.inr ⟨control, rfl⟩)
  · exact Or.inl ⟨rfl, fun same => quote (beq_iff_eq.mpr same), fun same => backslash (beq_iff_eq.mpr same), control⟩

theorem hexValue?_hexOctet : ∀ n < 16, hexValue? (hexOctet n) = some n := by decide

theorem encodeScalar_of_lt : ∀ n < 32, encodeScalar n = [UInt8.ofNat n] := by decide

theorem hexQuad?_control {b : UInt8} (control : b < 32) :
    hexQuad? (ascii '0') (ascii '0') (hexOctet (b.toNat / 16)) (hexOctet (b.toNat % 16)) = some b.toNat := by
  have bound : b.toNat < 32 := UInt8.lt_iff_toNat_lt.mp control
  have zero : hexValue? (ascii '0') = some 0 := by decide
  simp only [hexQuad?, zero, hexValue?_hexOctet _ (by omega : b.toNat / 16 < 16),
    hexValue?_hexOctet _ (by omega : b.toNat % 16 < 16), Option.bind_eq_bind, Option.bind_some]
  congr 1
  omega

/-- An escaped octet is read as a whole, up to what follows it. -/
theorem readText_escapeOctet (raw : Octets) (b : UInt8) (rest : Octets) :
    readText raw (escapeOctet b ++ rest) = readText ((escapeOctet b).reverse ++ raw) rest := by
  have visible : ¬ ascii '\\' < 32 := by decide
  have noQuote : (ascii '\\' == ascii '"') = false := by decide
  rcases escapeOctet_cases b with ⟨plain, noQuote, noEscape, visible⟩ | ⟨e, escaped, known, _⟩ | ⟨control, escaped⟩
  · rw [plain, List.singleton_append, readText.eq_def]
    simp [noQuote, noEscape, visible]
  · rw [escaped, List.cons_append, List.singleton_append, readText.eq_def]
    simp [known, visible, noQuote]
  · have bound : b.toNat < 32 := UInt8.lt_iff_toNat_lt.mp control
    have unknown : shortEscape? (ascii 'u') = none := by decide
    have zero : isHexDigit (ascii '0') = true := by decide
    have high : isHexDigit (hexOctet (b.toNat / 16)) = true := by
      rw [isHexDigit, hexValue?_hexOctet _ (by omega), Option.isSome_some]
    have low : isHexDigit (hexOctet (b.toNat % 16)) = true := by
      rw [isHexDigit, hexValue?_hexOctet _ (by omega), Option.isSome_some]
    rw [escaped]
    simp only [List.cons_append, List.nil_append]
    rw [readText]
    simp [unknown, visible, noQuote, zero, high, low]

theorem readText_escaped (raw octets rest : Octets) :
    readText raw (octets.flatMap escapeOctet ++ ascii '"' :: rest) =
      some (raw.reverse ++ octets.flatMap escapeOctet, rest) := by
  induction octets generalizing raw with
  | nil =>
    rw [List.flatMap_nil, List.nil_append, readText.eq_def]
    simp
  | cons b octets ih =>
    rw [List.flatMap_cons, List.append_assoc, readText_escapeOctet, ih]
    simp

theorem unescapeFrom_escapeOctet (out : Octets) (b : UInt8) (rest : Octets) :
    unescapeFrom out (escapeOctet b ++ rest) = unescapeFrom (b :: out) rest := by
  rcases escapeOctet_cases b with ⟨plain, _, noEscape, _⟩ | ⟨e, escaped, known, noUnicode⟩ | ⟨control, escaped⟩
  · rw [plain, List.singleton_append, unescapeFrom.eq_def]
    simp [noEscape]
  · rw [escaped, List.cons_append, List.singleton_append, unescapeFrom.eq_def]
    simp [known, noUnicode]
  · have bound : b.toNat < 32 := UInt8.lt_iff_toNat_lt.mp control
    have low : isLowSurrogate b.toNat = false := by simp [isLowSurrogate]; omega
    have high : isHighSurrogate b.toNat = false := by simp [isHighSurrogate]; omega
    rw [escaped]
    simp only [List.cons_append, List.nil_append]
    rw [unescapeFrom]
    simp [hexQuad?_control control, low, high, encodeScalar_of_lt _ bound]

theorem unescapeFrom_escaped (out octets : Octets) :
    unescapeFrom out (octets.flatMap escapeOctet) = some (out.reverse ++ octets) := by
  induction octets generalizing out with
  | nil => simp [unescapeFrom]
  | cons b octets ih =>
    rw [List.flatMap_cons, unescapeFrom_escapeOctet, ih]
    simp

/-- A string that was escaped stands for itself. -/
@[simp] theorem decodeText_escaped (s : String) : decodeText ((Utf8.encode s).flatMap escapeOctet) = some s := by
  rw [decodeText, unescapeFrom_escaped]
  simp [Utf8.decode_encode, Except.toOption]

theorem digits_of_lt : ∀ n < 10, digits n = [UInt8.ofNat (48 + n)] := by
  intro n small
  have single : ∀ n < 10, String.utf8EncodeChar (Nat.digitChar n) = [UInt8.ofNat (48 + n)] := by decide
  rw [digits, Nat.toString_eq_ofList_toDigits, Utf8.encode_ofList, Nat.toDigits_of_lt_base small,
    List.flatMap_singleton]
  exact single n small

theorem digits_of_le {n : Nat} (large : 10 ≤ n) : digits n = digits (n / 10) ++ [UInt8.ofNat (48 + n % 10)] := by
  have last := digits_of_lt (n % 10) (by omega)
  rw [digits, Nat.toString_eq_ofList_toDigits, Utf8.encode_ofList, Nat.toDigits_of_lt_base (by omega)] at last
  rw [digits, digits, Nat.toString_eq_ofList_toDigits, Nat.toString_eq_ofList_toDigits, Utf8.encode_ofList,
    Utf8.encode_ofList, Nat.toDigits_of_base_le (by decide) large, List.flatMap_append, last]

theorem isDigit_ofNat : ∀ n < 10, isDigit (UInt8.ofNat (48 + n)) = true := by decide

/-- What the digits of a number are to the reader: they stand for the number, and start with a zero only if it is
the number zero. -/
structure Numeral (text : Octets) (n : Nat) : Prop where
  nonempty : text ≠ []
  digits : ∀ b ∈ text, isDigit b = true
  value : value10 text = n
  plain : text.head? = some (ascii '0') → n = 0

theorem numeral_digits (n : Nat) : Numeral (digits n) n := by
  induction n using Nat.strongRecOn with
  | ind n ih =>
    rcases Nat.lt_or_ge n 10 with small | large
    · rw [digits_of_lt n small]
      refine ⟨by simp, by simpa using isDigit_ofNat n small, ?_, ?_⟩
      · have single : ∀ n < 10, value10 [UInt8.ofNat (48 + n)] = n := by decide
        exact single n small
      · have zero : ∀ n < 10, [UInt8.ofNat (48 + n)].head? = some (ascii '0') → n = 0 := by decide
        exact zero n small
    · obtain ⟨nonempty, all, value, plain⟩ := ih (n / 10) (by omega)
      rw [digits_of_le large]
      refine ⟨by simp, ?_, ?_, ?_⟩
      · intro b member
        rcases List.mem_append.mp member with inside | last
        · exact all b inside
        · rw [List.mem_singleton.mp last]
          exact isDigit_ofNat _ (by omega)
      · rw [value10, List.foldl_append, ← value10, value, List.foldl_cons, List.foldl_nil,
          Utf8.toNat_ofNat_of_lt (by omega)]
        omega
      · intro zero
        rw [List.head?_append_of_ne_nil _ nonempty] at zero
        have := plain zero
        omega

/-- An octet behind a number that does not belong to it. -/
def EndsNumber (b : UInt8) : Prop := isDigit b = false ∧ b ≠ ascii '.' ∧ b ≠ ascii 'e' ∧ b ≠ ascii 'E'

theorem readNumber_digits (n : Nat) {rest : Octets} (stop : ∀ b ∈ rest.head?, EndsNumber b) :
    readNumber false (digits n ++ rest) = some ({ whole := n }, rest) := by
  obtain ⟨nonempty, all, value, plain⟩ := numeral_digits n
  have taken : (digits n ++ rest).takeWhile isDigit = digits n :=
    takeWhile_append_of_stop all fun b atHead => (stop b atHead).1
  have left : (digits n ++ rest).dropWhile isDigit = rest := by
    have whole := List.takeWhile_append_dropWhile (p := isDigit) (l := digits n ++ rest)
    rw [taken] at whole
    exact List.append_cancel_left whole
  have noZero : ((digits n).length != 1 && (digits n).head? == some (ascii '0')) = false := by
    rw [Bool.and_eq_false_iff]
    by_cases zero : (digits n).head? = some (ascii '0')
    · rw [plain zero]
      exact Or.inl (by decide)
    · exact Or.inr (beq_eq_false_iff_ne.mpr zero)
  have noFraction : readFraction rest = some ([], rest) := by
    cases rest with
    | nil => rfl
    | cons b rest => simp [readFraction, (stop b rfl).2.1]
  have noExponent : readExponent rest = some (none, rest) := by
    cases rest with
    | nil => rfl
    | cons b rest => simp [readExponent, (stop b rfl).2.2.1, (stop b rfl).2.2.2]
  have empty : (digits n).isEmpty = false := by simpa using nonempty
  simp [readNumber, readDigits, taken, left, empty, noZero, noFraction, noExponent, value]

end SourceCoverage.Json
