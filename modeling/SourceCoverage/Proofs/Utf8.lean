import Mathlib.Data.List.Basic
import SourceCoverage.Utf8

namespace SourceCoverage.Utf8

theorem encode_eq_flatMap (s : String) : encode s = s.toList.flatMap String.utf8EncodeChar := by
  rw [encode, ← String.utf8Encode_toList, List.utf8Encode, List.toList_data_toByteArray]

@[simp] theorem encode_append (s t : String) : encode (s ++ t) = encode s ++ encode t := by
  simp [encode_eq_flatMap]

@[simp] theorem encode_empty : encode "" = [] := by
  simp [encode_eq_flatMap]

theorem encode_ofList (chars : List Char) : encode (String.ofList chars) = chars.flatMap String.utf8EncodeChar := by
  simp [encode_eq_flatMap]

theorem encode_injective {s t : String} (same : encode s = encode t) : s = t := by
  refine String.toByteArray_inj.mp (ByteArray.ext (Array.toList_inj.mp same))

/-- A character is either one octet below 128 or octets from 128 on. -/
theorem utf8EncodeChar_cases (c : Char) :
    (c.toNat < 128 ∧ String.utf8EncodeChar c = [UInt8.ofNat c.toNat]) ∨
      (128 ≤ c.toNat ∧ ∀ b ∈ String.utf8EncodeChar c, 128 ≤ b.toNat) := by
  by_cases small : c.val.toNat ≤ 0x7f
  · left
    refine ⟨by simp only [Char.toNat]; omega, ?_⟩
    unfold String.utf8EncodeChar
    rw [if_pos small]
    rfl
  · right
    refine ⟨by simp only [Char.toNat]; omega, ?_⟩
    intro b member
    unfold String.utf8EncodeChar at member
    rw [if_neg small] at member
    have lead (n : Nat) (bound : 128 ≤ n) (bound' : n < 256) : 128 ≤ (UInt8.ofNat n).toNat := by
      rw [UInt8.toNat_ofNat']
      omega
    split at member
    · simp only [List.mem_cons, List.not_mem_nil, or_false] at member
      rcases member with rfl | rfl <;> exact lead _ (by omega) (by omega)
    · split at member
      · simp only [List.mem_cons, List.not_mem_nil, or_false] at member
        rcases member with rfl | rfl | rfl <;> exact lead _ (by omega) (by omega)
      · simp only [List.mem_cons, List.not_mem_nil, or_false] at member
        rcases member with rfl | rfl | rfl | rfl <;> exact lead _ (by omega) (by omega)

/-- An octet below 128 stands in an encoding only for its own character. -/
theorem ascii_mem_encode {s : String} {b : UInt8} (small : b.toNat < 128) (member : b ∈ encode s) :
    Char.ofNat b.toNat ∈ s.toList := by
  rw [encode_eq_flatMap, List.mem_flatMap] at member
  obtain ⟨c, inside, octet⟩ := member
  rcases utf8EncodeChar_cases c with ⟨bound, single⟩ | ⟨_, wide⟩
  · rw [single, List.mem_singleton] at octet
    have value : b.toNat = c.toNat := by
      rw [octet, UInt8.toNat_ofNat']
      omega
    rw [value, Char.ofNat_toNat]
    exact inside
  · have := wide b octet
    omega

theorem toNat_ofNat_of_lt {n : Nat} (bound : n < 256) : (UInt8.ofNat n).toNat = n := by
  rw [UInt8.toNat_ofNat']
  omega

/-- The continuation octet that holds six bits. -/
theorem isContinuation_ofNat (n : Nat) : isContinuation (UInt8.ofNat (n % 64 + 128)) = true := by
  have value : (UInt8.ofNat (n % 64 + 128)).toNat = n % 64 + 128 := toNat_ofNat_of_lt (by omega)
  simp only [isContinuation, Bool.and_eq_true, decide_eq_true_eq, UInt8.le_iff_toNat_le, value,
    UInt8.reduceToNat]
  omega

theorem payload_ofNat (n : Nat) : payload (UInt8.ofNat (n % 64 + 128)) = n % 64 := by
  rw [payload, toNat_ofNat_of_lt (by omega)]
  omega

section Reading

variable {n : Nat} (rest : Octets)

theorem reading_one (small : n ≤ 0x7f) : reading (UInt8.ofNat n) rest = .scalar (Char.ofNat n) 1 := by
  have lead : (UInt8.ofNat n).toNat = n := toNat_ofNat_of_lt (by omega)
  have bound : UInt8.ofNat n < 0x80 := by
    rw [UInt8.lt_iff_toNat_lt, lead]
    exact Nat.lt_succ_of_le small
  simp only [reading, bound, if_true, lead]

theorem reading_two (above : ¬ n ≤ 0x7f) (small : n ≤ 0x7ff) :
    reading (UInt8.ofNat (n / 64 % 32 + 192)) (UInt8.ofNat (n % 64 + 128) :: rest) = .scalar (Char.ofNat n) 2 := by
  have lead : (UInt8.ofNat (n / 64 % 32 + 192)).toNat = n / 64 % 32 + 192 := toNat_ofNat_of_lt (by omega)
  have bounds : ¬ UInt8.ofNat (n / 64 % 32 + 192) < 0x80 ∧ ¬ UInt8.ofNat (n / 64 % 32 + 192) < 0xC2 ∧
      ¬ 0xF4 < UInt8.ofNat (n / 64 % 32 + 192) ∧ UInt8.ofNat (n / 64 % 32 + 192) < 0xE0 := by
    simp only [UInt8.lt_iff_toNat_lt, lead, UInt8.reduceToNat]
    omega
  have value : (n / 64 % 32 + 192) % 32 * 64 + n % 64 = n := by omega
  simp only [reading, bounds, if_false, Bool.or_eq_true, decide_eq_true_eq, or_self, if_true,
    isContinuation_ofNat, payload_ofNat, lead, value]

/-- The bounds on the second octet keep out surrogates and values that two octets can hold. -/
theorem reading_three (above : ¬ n ≤ 0x7ff) (small : n ≤ 0xffff) (valid : n < 0xD800 ∨ 0xDFFF < n) :
    reading (UInt8.ofNat (n / 4096 % 16 + 224))
      (UInt8.ofNat (n / 64 % 64 + 128) :: UInt8.ofNat (n % 64 + 128) :: rest) = .scalar (Char.ofNat n) 3 := by
  have lead : (UInt8.ofNat (n / 4096 % 16 + 224)).toNat = n / 4096 % 16 + 224 := toNat_ofNat_of_lt (by omega)
  have second : (UInt8.ofNat (n / 64 % 64 + 128)).toNat = n / 64 % 64 + 128 := toNat_ofNat_of_lt (by omega)
  have bounds : ¬ UInt8.ofNat (n / 4096 % 16 + 224) < 0x80 ∧ ¬ UInt8.ofNat (n / 4096 % 16 + 224) < 0xC2 ∧
      ¬ 0xF4 < UInt8.ofNat (n / 4096 % 16 + 224) ∧ ¬ UInt8.ofNat (n / 4096 % 16 + 224) < 0xE0 ∧
      UInt8.ofNat (n / 4096 % 16 + 224) < 0xF0 := by
    simp only [UInt8.lt_iff_toNat_lt, lead, UInt8.reduceToNat]
    omega
  have inBounds : ¬ UInt8.ofNat (n / 64 % 64 + 128) < (secondBounds (UInt8.ofNat (n / 4096 % 16 + 224))).1 ∧
      ¬ (secondBounds (UInt8.ofNat (n / 4096 % 16 + 224))).2 < UInt8.ofNat (n / 64 % 64 + 128) := by
    unfold secondBounds
    simp only [beq_iff_eq, ← UInt8.toNat_inj, lead, UInt8.reduceToNat]
    split_ifs <;> simp only [UInt8.lt_iff_toNat_lt, second, UInt8.reduceToNat] <;> omega
  have value : (n / 4096 % 16 + 224) % 16 * 4096 + n / 64 % 64 * 64 + n % 64 = n := by omega
  simp only [reading, bounds, if_false, Bool.or_eq_true, decide_eq_true_eq, or_self, if_true, inBounds,
    isContinuation_ofNat, Bool.not_true, Bool.false_eq_true, payload_ofNat, lead, value]

/-- The bounds on the second octet keep out values that three octets can hold and those above the last one. -/
theorem reading_four (above : ¬ n ≤ 0xffff) (valid : n < 0x110000) :
    reading (UInt8.ofNat (n / 262144 % 8 + 240)) (UInt8.ofNat (n / 4096 % 64 + 128) ::
      UInt8.ofNat (n / 64 % 64 + 128) :: UInt8.ofNat (n % 64 + 128) :: rest) = .scalar (Char.ofNat n) 4 := by
  have lead : (UInt8.ofNat (n / 262144 % 8 + 240)).toNat = n / 262144 % 8 + 240 := toNat_ofNat_of_lt (by omega)
  have second : (UInt8.ofNat (n / 4096 % 64 + 128)).toNat = n / 4096 % 64 + 128 := toNat_ofNat_of_lt (by omega)
  have bounds : ¬ UInt8.ofNat (n / 262144 % 8 + 240) < 0x80 ∧ ¬ UInt8.ofNat (n / 262144 % 8 + 240) < 0xC2 ∧
      ¬ 0xF4 < UInt8.ofNat (n / 262144 % 8 + 240) ∧ ¬ UInt8.ofNat (n / 262144 % 8 + 240) < 0xE0 ∧
      ¬ UInt8.ofNat (n / 262144 % 8 + 240) < 0xF0 := by
    simp only [UInt8.lt_iff_toNat_lt, lead, UInt8.reduceToNat]
    omega
  have inBounds : ¬ UInt8.ofNat (n / 4096 % 64 + 128) < (secondBounds (UInt8.ofNat (n / 262144 % 8 + 240))).1 ∧
      ¬ (secondBounds (UInt8.ofNat (n / 262144 % 8 + 240))).2 < UInt8.ofNat (n / 4096 % 64 + 128) := by
    unfold secondBounds
    simp only [beq_iff_eq, ← UInt8.toNat_inj, lead, UInt8.reduceToNat]
    split_ifs <;> simp only [UInt8.lt_iff_toNat_lt, second, UInt8.reduceToNat] <;> omega
  have value : (n / 262144 % 8 + 240) % 8 * 262144 + n / 4096 % 64 * 4096 + n / 64 % 64 * 64 + n % 64 = n := by omega
  simp only [reading, bounds, if_false, Bool.or_eq_true, decide_eq_true_eq, or_self, inBounds,
    isContinuation_ofNat, Bool.not_true, Bool.false_eq_true, payload_ofNat, lead, value]

end Reading

/-- The octets of a character are read as this character, whatever follows them. -/
theorem reading_utf8EncodeChar (c : Char) (rest : Octets) :
    ∃ lead tail, String.utf8EncodeChar c = lead :: tail ∧
      reading lead (tail ++ rest) = .scalar c (tail.length + 1) := by
  have valid : c.toNat < 0xD800 ∨ 0xDFFF < c.toNat ∧ c.toNat < 0x110000 := c.valid
  have value : c.val.toNat = c.toNat := rfl
  have scalar (width : Nat) : Reading.scalar (Char.ofNat c.toNat) width = .scalar c width := by rw [Char.ofNat_toNat]
  unfold String.utf8EncodeChar
  rw [value]
  dsimp only
  split_ifs with one two three
  · exact ⟨_, _, rfl, (reading_one rest one).trans (scalar 1)⟩
  · exact ⟨_, _, rfl, (reading_two rest one two).trans (scalar 2)⟩
  · exact ⟨_, _, rfl, (reading_three rest two three (by omega)).trans (scalar 3)⟩
  · exact ⟨_, _, rfl, (reading_four rest three (by omega)).trans (scalar 4)⟩

theorem decodeFrom_flatMap (chars : List Char) (index : Nat) (out : String) :
    decodeFrom index out (chars.flatMap String.utf8EncodeChar) = .ok (out ++ String.ofList chars) := by
  induction chars generalizing index out with
  | nil => simp [decodeFrom]
  | cons c chars ih =>
    obtain ⟨lead, tail, octets, read⟩ := reading_utf8EncodeChar c (chars.flatMap String.utf8EncodeChar)
    rw [List.flatMap_cons, octets, List.cons_append, decodeFrom, read]
    simp only [Nat.add_sub_cancel, List.drop_left, ih]
    simp [← String.toList_inj]

theorem decodeLossyFrom_flatMap (chars : List Char) (out : String) :
    decodeLossyFrom out (chars.flatMap String.utf8EncodeChar) = out ++ String.ofList chars := by
  induction chars generalizing out with
  | nil => simp [decodeLossyFrom]
  | cons c chars ih =>
    obtain ⟨lead, tail, octets, read⟩ := reading_utf8EncodeChar c (chars.flatMap String.utf8EncodeChar)
    rw [List.flatMap_cons, octets, List.cons_append, decodeLossyFrom, read]
    simp only [Nat.add_sub_cancel, List.drop_left, ih]
    simp [← String.toList_inj]

theorem decode_encode (s : String) : decode (encode s) = .ok s := by
  rw [decode, encode_eq_flatMap, decodeFrom_flatMap]
  simp

theorem decodeLossy_encode (s : String) : decodeLossy (encode s) = s := by
  rw [decodeLossy, encode_eq_flatMap, decodeLossyFrom_flatMap]
  simp

/-- A character is one octet that continues nothing, and octets that continue it. -/
theorem utf8EncodeChar_eq_cons (c : Char) : ∃ lead tail, String.utf8EncodeChar c = lead :: tail ∧
    isContinuation lead = false ∧ ∀ b ∈ tail, isContinuation b = true := by
  have apart (n : Nat) (bound : n < 256) (outside : n < 128 ∨ 192 ≤ n) : isContinuation (UInt8.ofNat n) = false := by
    simp only [isContinuation, Bool.and_eq_false_iff, decide_eq_false_iff_not, UInt8.le_iff_toNat_le,
      toNat_ofNat_of_lt bound, UInt8.reduceToNat]
    omega
  unfold String.utf8EncodeChar
  dsimp only
  split_ifs with one two three
  · exact ⟨_, _, rfl, apart _ (by omega) (Or.inl (by omega)), by simp⟩
  · refine ⟨_, _, rfl, apart _ (by omega) (Or.inr (by omega)), ?_⟩
    simp only [List.forall_mem_cons, List.not_mem_nil, false_imp_iff, implies_true, isContinuation_ofNat, and_self]
  · refine ⟨_, _, rfl, apart _ (by omega) (Or.inr (by omega)), ?_⟩
    simp only [List.forall_mem_cons, List.not_mem_nil, false_imp_iff, implies_true, isContinuation_ofNat, and_self]
  · refine ⟨_, _, rfl, apart _ (by omega) (Or.inr (by omega)), ?_⟩
    simp only [List.forall_mem_cons, List.not_mem_nil, false_imp_iff, implies_true, isContinuation_ofNat, and_self]

/-- No character's octets begin with those of another one. -/
theorem utf8EncodeChar_append_inj {c d : Char} {rest rest' : Octets}
    (same : String.utf8EncodeChar c ++ rest = String.utf8EncodeChar d ++ rest') : c = d ∧ rest = rest' := by
  obtain ⟨lead, tail, octets, read⟩ := reading_utf8EncodeChar c rest
  obtain ⟨lead', tail', octets', read'⟩ := reading_utf8EncodeChar d rest'
  rw [octets, octets', List.cons_append, List.cons_append] at same
  obtain ⟨rfl, behind⟩ := List.cons.inj same
  rw [behind, read'] at read
  obtain rfl : d = c := (Reading.scalar.inj read).1
  obtain rfl : tail' = tail := (List.cons.inj (octets'.symm.trans octets)).2
  exact ⟨rfl, List.append_cancel_left behind⟩

theorem flatMap_eq_flatMap_append {chars front : List Char} {rest : Octets}
    (same : chars.flatMap String.utf8EncodeChar = front.flatMap String.utf8EncodeChar ++ rest) :
    ∃ behind : List Char, rest = behind.flatMap String.utf8EncodeChar := by
  induction front generalizing chars with
  | nil => exact ⟨chars, same.symm⟩
  | cons d front ih =>
    rw [List.flatMap_cons, List.append_assoc] at same
    cases chars with
    | nil =>
      obtain ⟨lead, tail, octets, _⟩ := utf8EncodeChar_eq_cons d
      simp [octets] at same
    | cons c chars =>
      rw [List.flatMap_cons] at same
      exact ih (utf8EncodeChar_append_inj same).2

/-- A text can be divided in front of every octet that continues no character. -/
theorem flatMap_eq_append {chars : List Char} {front rest : Octets}
    (same : chars.flatMap String.utf8EncodeChar = front ++ rest)
    (boundary : ∀ b, rest.head? = some b → isContinuation b = false) :
    (∃ before : List Char, front = before.flatMap String.utf8EncodeChar) ∧
      ∃ behind : List Char, rest = behind.flatMap String.utf8EncodeChar := by
  induction chars generalizing front with
  | nil =>
    obtain ⟨rfl, rfl⟩ := List.append_eq_nil_iff.mp same.symm
    exact ⟨⟨[], rfl⟩, [], rfl⟩
  | cons c chars ih =>
    cases front with
    | nil => exact ⟨⟨[], rfl⟩, c :: chars, same.symm⟩
    | cons b front =>
      rw [List.flatMap_cons] at same
      rcases List.append_eq_append_iff.mp same with ⟨inner, split, later⟩ | ⟨cut, split, later⟩
      · obtain ⟨⟨before, octets⟩, behind⟩ := ih later
        refine ⟨⟨c :: before, ?_⟩, behind⟩
        rw [split, octets, List.flatMap_cons]
      · -- The division is at the end of the character, because inside it every octet continues it.
        cases cut with
        | nil =>
          rw [List.append_nil] at split
          refine ⟨⟨[c], ?_⟩, chars, later⟩
          rw [← split, List.flatMap_singleton]
        | cons x cut =>
          exfalso
          obtain ⟨lead, tail, octets, _, continues⟩ := utf8EncodeChar_eq_cons c
          rw [octets] at split
          have inside : x ∈ tail := by
            rw [(List.cons.inj split).2]
            simp
          have starts := boundary x (by rw [later]; rfl)
          simp [continues x inside] at starts

/-- Taking a string out of a text leaves a text on both sides of it. -/
theorem encode_eq_append {text inner : String} {front rest : Octets} (nonempty : inner ≠ "")
    (same : encode text = front ++ (encode inner ++ rest)) :
    (∃ before, front = encode before) ∧ ∃ behind, rest = encode behind := by
  have ofChars {octets : Octets} (spelled : ∃ chars : List Char, octets = chars.flatMap String.utf8EncodeChar) :
      ∃ s, octets = encode s := by
    obtain ⟨chars, rfl⟩ := spelled
    exact ⟨String.ofList chars, (encode_ofList chars).symm⟩
  rw [encode_eq_flatMap, encode_eq_flatMap] at same
  have boundary : ∀ b, (inner.toList.flatMap String.utf8EncodeChar ++ rest).head? = some b →
      isContinuation b = false := by
    cases chars : inner.toList with
    | nil => exact absurd (String.toList_eq_nil_iff.mp chars) nonempty
    | cons c chars =>
      obtain ⟨lead, tail, octets, starts, _⟩ := utf8EncodeChar_eq_cons c
      rw [List.flatMap_cons, octets]
      rintro b ⟨⟩
      exact starts
  obtain ⟨before, behind, octets⟩ := flatMap_eq_append same boundary
  exact ⟨ofChars before, ofChars (flatMap_eq_flatMap_append octets.symm)⟩

/-- Octets below 128 are the encoding of a string. -/
theorem exists_encode_of_ascii {octets : Octets} (small : ∀ b ∈ octets, b.toNat < 128) : ∃ s, octets = encode s := by
  refine ⟨String.ofList (octets.map Char.ofUInt8), ?_⟩
  rw [encode_ofList, List.flatMap_map]
  induction octets with
  | nil => rfl
  | cons b octets ih =>
    have value : (Char.ofUInt8 b).toNat = b.toNat := UInt8.toNat_toUInt32 b
    have bound := small b List.mem_cons_self
    rw [List.flatMap_cons, ← ih fun c member => small c (List.mem_cons_of_mem _ member)]
    rcases utf8EncodeChar_cases (Char.ofUInt8 b) with ⟨_, single⟩ | ⟨wide, _⟩
    · rw [single, value, UInt8.ofNat_toNat, List.singleton_append]
    · omega

end SourceCoverage.Utf8
