import SourceCoverage.Gzip.Stored

namespace SourceCoverage.Gzip

/-- The lowest bits of a number, lowest first. -/
def lowBits (width n : Nat) : Bits := (List.range width).map n.testBit

/-- The number of numbers that have no more than `width` bits. -/
def capacity : (width : Nat) → Nat
  | 0 => 1
  | width + 1 => 2 * capacity width

theorem lowBits_succ (width n : Nat) : lowBits (width + 1) n = n.testBit 0 :: lowBits width (n / 2) := by
  rw [lowBits, List.range_succ_eq_map, List.map_cons, List.map_map, lowBits]
  congr 1
  refine List.map_congr_left ?_
  intro i _
  rw [Function.comp_apply, Nat.testBit_succ]

theorem lowBits_add (width more n : Nat) :
    lowBits (width + more) n = lowBits width n ++ lowBits more (n / capacity width) := by
  induction width generalizing n with
  | zero => simp [lowBits, capacity]
  | succ width ih =>
    rw [Nat.succ_add, lowBits_succ, ih, lowBits_succ, List.cons_append, Nat.div_div_eq_div_mul, capacity]

theorem takeNumber_lowBits (width n : Nat) (rest : Bits) :
    takeNumber width (lowBits width n ++ rest) = some (n % capacity width, rest) := by
  induction width generalizing n with
  | zero => simp [lowBits, takeNumber, capacity, Nat.mod_one]
  | succ width ih =>
    have low : (n.testBit 0).toNat = n % 2 := by
      rcases Nat.mod_two_eq_zero_or_one n with even | odd <;> simp [Nat.testBit_zero, *]
    rw [lowBits_succ, List.cons_append, takeNumber, ih, Option.map_some, low, capacity, Nat.mod_mul, Nat.add_comm]

theorem octetBits_toUInt8 (n : Nat) : octetBits n.toUInt8 = lowBits 8 n := by
  refine List.map_congr_left ?_
  intro i member
  have small : i < 8 := List.mem_range.mp member
  have value : n.toUInt8.toNat = n % 2 ^ 8 := rfl
  rw [value, Nat.testBit_mod_two_pow]
  simp [small]

@[simp] theorem ofOctets_append (a b : Octets) : Bits.ofOctets (a ++ b) = Bits.ofOctets a ++ Bits.ofOctets b :=
  List.flatMap_append

@[simp] theorem ofOctets_cons (b : UInt8) (text : Octets) :
    Bits.ofOctets (b :: text) = octetBits b ++ Bits.ofOctets text := List.flatMap_cons

theorem length_ofOctets (text : Octets) : (Bits.ofOctets text).length = 8 * text.length := by
  induction text with
  | nil => rfl
  | cons b text ih => simp [octetBits, ih]; omega

theorem ofOctets_littleEndian (width n : Nat) : Bits.ofOctets (littleEndian width n) = lowBits (8 * width) n := by
  induction width generalizing n with
  | zero => rfl
  | succ width ih =>
    have octets : capacity 8 = 256 := rfl
    rw [littleEndian, ofOctets_cons, octetBits_toUInt8, ih, Nat.mul_succ, Nat.add_comm (8 * width),
      lowBits_add, octets]

theorem takeNumber_littleEndian (width n : Nat) (rest : Bits) :
    takeNumber (8 * width) (Bits.ofOctets (littleEndian width n) ++ rest) =
      some (n % capacity (8 * width), rest) := by
  rw [ofOctets_littleEndian, takeNumber_lowBits]

theorem takeOctets_ofOctets (contents : Octets) (out : Array UInt8) (rest : Bits) :
    takeOctets contents.length out (Bits.ofOctets contents ++ rest) = some (out ++ contents.toArray, rest) := by
  induction contents generalizing out with
  | nil => simp [takeOctets, Bits.ofOctets]
  | cons b contents ih =>
    have bits : octetBits b = lowBits 8 b.toNat := rfl
    have value : (b.toNat % capacity 8).toUInt8 = b := by
      rw [Nat.mod_eq_of_lt (show b.toNat < capacity 8 from b.toNat_lt)]
      exact UInt8.ofNat_toNat
    rw [List.length_cons, takeOctets, ofOctets_cons, List.append_assoc, bits, takeNumber_lowBits]
    simp only [value]
    rw [ih]
    simp

/-- A stored block is read as a whole if whole octets follow it. -/
theorem takeStored_storedBlock {contents : Octets} (fits : contents.length ≤ largestBlock) (out : Array UInt8)
    {front rest : Bits} (begun : front.length < 8) (whole : rest.length % 8 = 0) :
    takeStored (front ++ (Bits.ofOctets (littleEndian 2 contents.length) ++
      (Bits.ofOctets (littleEndian 2 (65535 - contents.length)) ++ (Bits.ofOctets contents ++ rest)))) out =
      some (out ++ contents.toArray, rest) := by
  have fits : contents.length ≤ 65535 := fits
  have aligned : ∀ bits : Bits, bits.length % 8 = 0 → alignToOctet (front ++ bits) = bits := by
    intro bits octets
    have taken : (front ++ bits).length % 8 = front.length := by
      rw [List.length_append]
      omega
    rw [alignToOctet, taken, List.drop_left]
  have number (n : Nat) (small : n ≤ 65535) (more : Bits) :
      takeNumber 16 (Bits.ofOctets (littleEndian 2 n) ++ more) = some (n, more) := by
    have taken := takeNumber_littleEndian 2 n more
    rwa [Nat.mod_eq_of_lt (show n < capacity (8 * 2) from Nat.lt_succ_of_le small)] at taken
  have complement : (contents.length + (65535 - contents.length) != 65535) = false := by
    rw [bne_eq_false_iff_eq]
    omega
  rw [takeStored, aligned _ (by simp only [List.length_append, length_ofOctets]; omega), number _ fits]
  simp only [Option.bind_eq_bind, Option.bind_some]
  rw [number _ (by omega)]
  simp only [Option.bind_some, complement, Bool.false_eq_true, if_false]
  exact takeOctets_ofOctets contents out rest

theorem octetBits_toUInt8_bool (last : Bool) :
    octetBits last.toUInt8 = [last, false, false, false, false, false, false, false] := by
  cases last <;> decide

/-- One step of unpacking, over a stored block. -/
theorem inflateBlocks_storedBlock (last : Bool) {contents : Octets} (fits : contents.length ≤ largestBlock)
    (steps : Nat) (out : Array UInt8) {rest : Bits} (whole : rest.length % 8 = 0) :
    inflateBlocks (steps + 1) out (Bits.ofOctets (storedBlock last contents) ++ rest) =
      if last then some (out ++ contents.toArray, rest) else inflateBlocks steps (out ++ contents.toArray) rest := by
  have begun : [false, false, false, false, false].length < 8 := by decide
  have read := takeStored_storedBlock fits out begun whole
  rw [storedBlock, List.cons_append, List.cons_append, ofOctets_cons, ofOctets_append, ofOctets_append,
    octetBits_toUInt8_bool, inflateBlocks]
  simp only [List.append_assoc, List.cons_append, List.nil_append] at read ⊢
  cases last <;> simp [takeNumber, read]

/-- Unpacking goes over all blocks of a text. -/
theorem inflateBlocks_storedBlocks {text : Octets} {count : Nat} (enough : text.length ≤ count) {steps : Nat}
    (out : Array UInt8) {rest : Bits} (whole : rest.length % 8 = 0)
    (further : (storedBlocks count text).length < steps) :
    inflateBlocks steps out (Bits.ofOctets (storedBlocks count text) ++ rest) = some (out ++ text.toArray, rest) := by
  induction count generalizing text steps out with
  | zero =>
    obtain ⟨steps, rfl⟩ : ∃ n, steps = n + 1 := ⟨steps - 1, by omega⟩
    rw [storedBlocks, inflateBlocks_storedBlock true (by rw [largestBlock]; omega) steps out whole, if_pos rfl]
  | succ count ih =>
    obtain ⟨steps, rfl⟩ : ∃ n, steps = n + 1 := ⟨steps - 1, by omega⟩
    rw [storedBlocks] at further ⊢
    cases left : text.drop largestBlock with
    | nil =>
      have fits : text.length ≤ largestBlock := List.drop_eq_nil_iff.mp left
      simp only
      rw [inflateBlocks_storedBlock true fits steps out whole, if_pos rfl]
    | cons b more =>
      have shorter : (b :: more).length = text.length - 65535 := by rw [← left, List.length_drop]; rfl
      have fits : (text.take largestBlock).length ≤ largestBlock := List.length_take_le _ _
      simp only [left, storedBlock, List.length_append, List.length_cons] at further
      simp only
      rw [ofOctets_append, List.append_assoc, inflateBlocks_storedBlock false fits steps out
        (by rw [List.length_append, length_ofOctets]; omega), if_neg (by decide),
        ih (by omega) _ (by omega), ← left]
      have joined : (text.take largestBlock).toArray ++ (text.drop largestBlock).toArray = text.toArray := by simp
      rw [Array.append_assoc, joined]

/-- What was packed is unpacked. -/
theorem unpack?_pack (text : Octets) : unpack? (pack text) = some text := by
  have header : afterHeader? (pack text) = some (storedBlocks text.length text ++
      (littleEndian 4 (checksum text).toNat ++ littleEndian 4 text.length)) := by
    simp [pack, magic, afterHeader?, afterFields?]
  have inflated : inflate (Bits.ofOctets (storedBlocks text.length text ++
      (littleEndian 4 (checksum text).toNat ++ littleEndian 4 text.length))) =
      some (text, Bits.ofOctets (littleEndian 4 (checksum text).toNat ++ littleEndian 4 text.length)) := by
    rw [inflate, ofOctets_append, inflateBlocks_storedBlocks (Nat.le_refl _) #[] (by rw [length_ofOctets]; omega)
      (by rw [List.length_append, length_ofOctets]; omega)]
    simp
  have aligned (octets : Octets) : alignToOctet (Bits.ofOctets octets) = Bits.ofOctets octets := by
    rw [alignToOctet, length_ofOctets, Nat.mul_mod_right, List.drop_zero]
  have number (n : Nat) (rest : Bits) :
      takeNumber 32 (Bits.ofOctets (littleEndian 4 n) ++ rest) = some (n % 4294967296, rest) :=
    takeNumber_littleEndian 4 n rest
  have small : (checksum text).toNat < 4294967296 := (checksum text).toNat_lt
  have length := number text.length []
  rw [List.append_nil] at length
  rw [unpack?, header]
  simp only [Option.bind_eq_bind, Option.bind_some, inflated, aligned]
  rw [ofOctets_append, number, Nat.mod_eq_of_lt small]
  simp [length]

end SourceCoverage.Gzip
