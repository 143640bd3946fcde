import Mathlib.Data.List.DropRight
import SourceCoverage.Proofs.LineIndex
import SourceCoverage.Utf8

namespace SourceCoverage

open Octets

namespace LineIndex

/-- The number of octets of lines, each with its newline. -/
def extent : List Octets → Nat
  | [] => 0
  | line :: lines => line.length + 1 + extent lines

theorem extent_take_succ {lines : List Octets} {i : Nat} {line : Octets} (atLine : lines[i]? = some line) :
    extent (lines.take (i + 1)) = extent (lines.take i) + line.length + 1 := by
  induction lines generalizing i with
  | nil => simp at atLine
  | cons first lines ih =>
    cases i with
    | zero =>
      obtain rfl : first = line := by simpa using atLine
      simp [extent]
    | succ i =>
      have later := ih (by simpa using atLine)
      simp only [List.take_succ_cons, extent]
      omega

/-- The last line has no newline; it is counted as if it had one. -/
theorem extent_splitOn (text : Octets) : extent (text.splitOn newline) = text.length + 1 := by
  induction text with
  | nil => rfl
  | cons b text ih =>
    obtain ⟨line, lines, divided⟩ := List.exists_cons_of_ne_nil (List.splitOn_ne_nil newline text)
    rw [List.splitOn_cons_eq_if_modifyHead, divided]
    rw [divided, extent] at ih
    split
    · simp only [extent, List.length_nil, List.length_cons]
      omega
    · simp only [List.modifyHead_cons, extent, List.length_cons]
      omega

/-- There is a start for each line, behind the lines in front of it. -/
theorem getElem?_cons_lineStarts (text : Octets) (offset i : Nat) : (offset :: lineStarts offset text)[i]? =
    (text.splitOn newline)[i]?.map fun _ => offset + extent ((text.splitOn newline).take i) := by
  induction text generalizing offset i with
  | nil => cases i <;> simp [lineStarts, extent]
  | cons b text ih =>
    obtain ⟨line, lines, divided⟩ := List.exists_cons_of_ne_nil (List.splitOn_ne_nil newline text)
    rw [List.splitOn_cons_eq_if_modifyHead, lineStarts]
    cases i with
    | zero => split <;> simp [divided, extent]
    | succ i =>
      split
      · simp only [List.getElem?_cons_succ, ih, List.take_succ_cons, extent, List.length_nil]
        congr 1
        funext _
        omega
      · -- The octet joins the first line, so that all later lines start one octet further on.
        have later := ih (offset + 1) (i + 1)
        rw [divided] at later ⊢
        simp only [List.modifyHead_cons, List.getElem?_cons_succ, List.take_succ_cons, extent, List.length_cons]
          at later ⊢
        rw [later]
        congr 1
        funext _
        omega

theorem getElem?_starts (text : Octets) (i : Nat) : (ofText text).starts[i]? =
    (text.splitOn newline)[i]?.map fun _ => extent ((text.splitOn newline).take i) := by
  rw [ofText, getElem?_cons_lineStarts]
  simp only [Nat.zero_add]

/-- A line ends where its newline stands. The last line ends with the text. -/
theorem lineEnd_eq {text : Octets} {i : Nat} {line : Octets} (atLine : (text.splitOn newline)[i]? = some line) :
    (ofText text).lineEnd i = extent ((text.splitOn newline).take i) + line.length := by
  have next := extent_take_succ atLine
  unfold lineEnd
  rw [getElem?_starts]
  cases atNext : (text.splitOn newline)[i + 1]? with
  | some following =>
    simp only [Option.map_some]
    omega
  | none =>
    have total := extent_splitOn text
    rw [List.take_of_length_le (List.getElem?_eq_none_iff.mp atNext)] at next
    simp only [Option.map_none, ofText]
    omega

end LineIndex

/-- The position is on a line of the text, at one of its octets or right behind the last. -/
def Position.On (text : Octets) (p : Position) : Prop :=
  p.line ≠ 0 ∧ p.column ≠ 0 ∧ ∃ line ∈ (text.splitOn newline)[p.line.toNat - 1]?, p.column.toNat ≤ line.length + 1

instance (text : Octets) (p : Position) : Decidable (p.On text) := inferInstanceAs (Decidable (_ ∧ _ ∧ _))

theorem LineIndex.isSome_offset?_iff (text : Octets) (p : Position) :
    ((ofText text).offset? p).isSome ↔ p.On text := by
  have line : p.line ≠ 0 ↔ 0 < p.line.toNat := UInt32.toNat_inj.symm.not.trans Nat.pos_iff_ne_zero.symm
  have column : p.column ≠ 0 ↔ 0 < p.column.toNat := UInt32.toNat_inj.symm.not.trans Nat.pos_iff_ne_zero.symm
  simp only [Option.isSome_iff_exists, offset?_eq_some_iff, Position.On, line, column, getElem?_starts,
    Option.map_eq_some_iff, Option.mem_def]
  constructor
  · rintro ⟨_, lineSet, columnSet, _, ⟨found, atLine, rfl⟩, rfl, ends⟩
    rw [lineEnd_eq atLine] at ends
    exact ⟨lineSet, columnSet, found, atLine, by omega⟩
  · rintro ⟨lineSet, columnSet, found, atLine, ends⟩
    refine ⟨_, lineSet, columnSet, _, ⟨found, atLine, rfl⟩, rfl, ?_⟩
    rw [lineEnd_eq atLine]
    omega

section Coordinates

/-- The row and column that one more octet leads to. -/
def nextPlace (place : Nat × Nat) (b : UInt8) : Nat × Nat :=
  if b == newline then (place.1 + 1, 0) else (place.1, place.2 + 1)

theorem advance_eq_foldl (row column k : Nat) (text : Octets) :
    advance row column k text = (text.take k).foldl nextPlace (row, column) := by
  induction text generalizing row column k with
  | nil => cases k <;> simp [advance]
  | cons b text ih =>
    cases k with
    | zero => rfl
    | succ k =>
      rw [advance, List.take_succ_cons, List.foldl_cons, nextPlace]
      split
      · exact ih (row + 1) 0 k
      · exact ih row (column + 1) k

theorem foldl_nextPlace (text : Octets) :
    text.foldl nextPlace (0, 0) = (text.count newline, (text.rtakeWhile (· != newline)).length) := by
  -- By octets from the end, because the column counts from the last newline.
  induction text using List.reverseRecOn with
  | nil => rfl
  | append_singleton text b ih =>
    rw [List.foldl_append, ih, List.foldl_cons, List.foldl_nil, nextPlace, List.rtakeWhile_concat, List.count_append]
    by_cases line : b = newline
    · simp [line]
    · simp [line]

theorem positionAt_eq (text : Octets) (k : Nat) : positionAt text k =
    ⟨clamp ((text.take k).count newline + 1), clamp (((text.take k).rtakeWhile (· != newline)).length + 1)⟩ := by
  rw [positionAt, advance_eq_foldl, foldl_nextPlace]

variable {text : Octets} {k : Nat}

theorem toNat_line_positionAt (short : text.length < 4294967295) :
    (positionAt text k).line.toNat = 1 + (text.take k).count newline := by
  have bound : (text.take k).count newline ≤ text.length :=
    List.count_le_length.trans (List.length_take_le' k text)
  rw [positionAt_eq, toNat_clamp (by omega), Nat.add_comm]

theorem toNat_column_positionAt (short : text.length < 4294967295) :
    (positionAt text k).column.toNat = 1 + ((text.take k).rtakeWhile (· != newline)).length := by
  have bound : ((text.take k).rtakeWhile (· != newline)).length ≤ text.length :=
    (List.rtakeWhile_suffix _ _).length_le.trans (List.length_take_le' k text)
  rw [positionAt_eq, toNat_clamp (by omega), Nat.add_comm]

end Coordinates

namespace LineIndex

/-- Each offset up to the end of a text belongs to one position, whose line counts the newlines before it and whose
column counts the octets since the last of them. Positions that are on no line, or beyond its end, have no offset.
Positions are in the order of their offsets. -/
theorem offset?_correspondence (text : Octets) (short : text.length < 4294967295) :
    (∀ k ≤ text.length, ∃! p, (ofText text).offset? p = some k) ∧
    (∀ p k, (ofText text).offset? p = some k → k ≤ text.length ∧
      p.line.toNat = 1 + (text.take k).count newline ∧
      p.column.toNat = 1 + ((text.take k).rtakeWhile (· != newline)).length) ∧
    (∀ p, (ofText text).offset? p = none ↔ ¬ p.On text) ∧
    ∀ p q a b, (ofText text).offset? p = some a → (ofText text).offset? q = some b → (p < q ↔ a < b) := by
  refine ⟨?_, ?_, ?_, ?_⟩
  · intro k inside
    exact ⟨positionAt text k, offset?_positionAt short inside,
      fun q atQ => offset?_injective atQ (offset?_positionAt short inside)⟩
  · intro p k atP
    have inside := offset?_le_length atP
    obtain rfl := offset?_injective atP (offset?_positionAt short inside)
    exact ⟨inside, toNat_line_positionAt short, toNat_column_positionAt short⟩
  · intro p
    rw [← isSome_offset?_iff, Option.not_isSome_iff_eq_none]
  · intro p q a b atP atQ
    rw [Position.lt_iff_toNat, offset?_lt_iff atP atQ]

/-- An empty line, and the place behind the newline that ends the text. -/
theorem offset?_correspondence_emptyLine :
    let text := Utf8.encode "ab\n\ncd\n"
    text.length < 4294967295 ∧ (∃! p, (ofText text).offset? p = some 3) ∧
      (∀ p, (ofText text).offset? p = some 7 → p.line.toNat = 4 ∧ p.column.toNat = 1) ∧
      (∀ p ∈ [(⟨0, 1⟩ : Position), ⟨1, 0⟩, ⟨1, 4⟩, ⟨2, 2⟩, ⟨4, 2⟩, ⟨5, 1⟩], (ofText text).offset? p = none) ∧
      ((⟨2, 1⟩ : Position) < ⟨3, 3⟩ ↔ 3 < 6) := by
  intro text
  have short : text.length < 4294967295 := by decide
  obtain ⟨unique, coordinates, others, ordered⟩ := offset?_correspondence text short
  refine ⟨short, unique 3 (by decide), ?_, ?_, ordered _ _ 3 6 (by decide) (by decide)⟩
  · intro p atP
    obtain ⟨-, line, column⟩ := coordinates p 7 atP
    exact ⟨line.trans (by decide), column.trans (by decide)⟩
  · intro p member
    rw [others]
    revert p
    decide

end LineIndex

end SourceCoverage
