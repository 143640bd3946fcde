import Mathlib.Data.List.Pairwise
import Mathlib.Order.Nat
import SourceCoverage.LineIndex

namespace SourceCoverage

namespace LineIndex

theorem mem_lineStarts_bounds {text : Octets} {offset start : Nat} (member : start ∈ lineStarts offset text) :
    offset < start ∧ start ≤ offset + text.length := by
  induction text generalizing offset with
  | nil => simp [lineStarts] at member
  | cons b text ih =>
    simp only [List.length_cons]
    by_cases line : b == Octets.newline
    · rw [lineStarts, if_pos line] at member
      rcases List.mem_cons.mp member with first | later
      · omega
      · have bounds := ih later
        omega
    · rw [lineStarts, if_neg line] at member
      have bounds := ih member
      omega

theorem lineStarts_sorted (text : Octets) (offset : Nat) : (lineStarts offset text).Pairwise (· < ·) := by
  induction text generalizing offset with
  | nil => exact .nil
  | cons b text ih =>
    unfold lineStarts
    split
    · exact List.pairwise_cons.mpr ⟨fun start member => (mem_lineStarts_bounds member).1, ih _⟩
    · exact ih _

theorem starts_sorted (text : Octets) : (ofText text).starts.Pairwise (· < ·) :=
  List.pairwise_cons.mpr ⟨fun start member => by have := (mem_lineStarts_bounds member).1; omega,
    lineStarts_sorted text 0⟩

theorem start_lt_start {text : Octets} {i j a b : Nat} (before : i < j)
    (atI : (ofText text).starts[i]? = some a) (atJ : (ofText text).starts[j]? = some b) : a < b := by
  obtain ⟨boundI, rfl⟩ := List.getElem?_eq_some_iff.mp atI
  obtain ⟨boundJ, rfl⟩ := List.getElem?_eq_some_iff.mp atJ
  exact List.pairwise_iff_getElem.mp (starts_sorted text) i j boundI boundJ before

/-- A line ends before every later line starts. -/
theorem lineEnd_lt_start {text : Octets} {i j b : Nat} (before : i < j)
    (atJ : (ofText text).starts[j]? = some b) : (ofText text).lineEnd i < b := by
  have bound := (List.getElem?_eq_some_iff.mp atJ).1
  obtain ⟨next, atNext⟩ : ∃ next, (ofText text).starts[i + 1]? = some next :=
    ⟨_, List.getElem?_eq_getElem (by omega)⟩
  have positive : 0 < next := by
    obtain ⟨first, atFirst⟩ : ∃ first, (ofText text).starts[i]? = some first :=
      ⟨_, List.getElem?_eq_getElem (by omega)⟩
    have := start_lt_start (Nat.lt_succ_self i) atFirst atNext
    omega
  have reached : next ≤ b := by
    rcases Nat.lt_or_ge (i + 1) j with later | same
    · exact (start_lt_start later atNext atJ).le
    · obtain rfl : j = i + 1 := by omega
      exact (Option.some.inj (atNext.symm.trans atJ)).le
  simp only [lineEnd, atNext]
  omega

theorem lineEnd_le_length (text : Octets) (line : Nat) : (ofText text).lineEnd line ≤ text.length := by
  unfold lineEnd
  split
  · rename_i next atNext
    obtain ⟨bound, rfl⟩ := List.getElem?_eq_some_iff.mp atNext
    have member : (ofText text).starts[line + 1] ∈ lineStarts 0 text := by
      simp only [ofText, List.getElem_cons_succ]
      exact List.getElem_mem _
    have bounds := mem_lineStarts_bounds member
    omega
  · rfl

theorem offset?_eq_some_iff {index : LineIndex} {p : Position} {k : Nat} :
    index.offset? p = some k ↔
      0 < p.line.toNat ∧ 0 < p.column.toNat ∧ ∃ start, index.starts[p.line.toNat - 1]? = some start ∧
        k = start + (p.column.toNat - 1) ∧ k ≤ index.lineEnd (p.line.toNat - 1) := by
  have line : p.line = 0 ↔ p.line.toNat = 0 := UInt32.toNat_inj.symm
  have column : p.column = 0 ↔ p.column.toNat = 0 := UInt32.toNat_inj.symm
  simp only [offset?, line, column]
  split
  · simp only [reduceCtorEq, false_iff]
    rintro ⟨lineSet, columnSet, _⟩
    omega
  · cases index.starts[p.line.toNat - 1]? with
    | none => simp
    | some start =>
      simp only [Option.ite_none_right_eq_some, Option.some.injEq, exists_eq_left']
      omega

theorem offset?_le_length {text : Octets} {p : Position} {k : Nat}
    (atP : (ofText text).offset? p = some k) : k ≤ text.length := by
  obtain ⟨_, _, _, _, _, bound⟩ := offset?_eq_some_iff.mp atP
  exact bound.trans (lineEnd_le_length text _)

theorem offset?_lt_offset? {text : Octets} {p q : Position} {a b : Nat}
    (atP : (ofText text).offset? p = some a) (atQ : (ofText text).offset? q = some b)
    (before : p < q) : a < b := by
  obtain ⟨lineP, _, start, atStart, rfl, ends⟩ := offset?_eq_some_iff.mp atP
  obtain ⟨_, columnQ, next, atNext, rfl, _⟩ := offset?_eq_some_iff.mp atQ
  rcases before with line | ⟨line, column⟩
  · rw [UInt32.lt_iff_toNat_lt] at line
    have later := lineEnd_lt_start (by omega : p.line.toNat - 1 < q.line.toNat - 1) atNext
    omega
  · rw [UInt32.lt_iff_toNat_lt] at column
    rw [line] at atStart
    have same := Option.some.inj (atStart.symm.trans atNext)
    omega

end LineIndex

namespace Position

/-- Reading order as the order of a number. -/
def toNat (p : Position) : Nat := p.line.toNat * 4294967296 + p.column.toNat

theorem lt_iff_toNat {p q : Position} : p < q ↔ p.toNat < q.toNat := by
  have column := p.column.toNat_lt
  have column' := q.column.toNat_lt
  change (p.line < q.line ∨ p.line = q.line ∧ p.column < q.column) ↔ _
  simp only [toNat, UInt32.lt_iff_toNat_lt, ← UInt32.toNat_inj]
  omega

theorem le_iff_toNat {p q : Position} : p ≤ q ↔ p.toNat ≤ q.toNat := by
  have column := p.column.toNat_lt
  have column' := q.column.toNat_lt
  change (p.line < q.line ∨ p.line = q.line ∧ p.column ≤ q.column) ↔ _
  simp only [toNat, UInt32.lt_iff_toNat_lt, UInt32.le_iff_toNat_le, ← UInt32.toNat_inj]
  omega

theorem eq_iff_toNat {p q : Position} : p = q ↔ p.toNat = q.toNat := by
  have column := p.column.toNat_lt
  have column' := q.column.toNat_lt
  obtain ⟨line, _⟩ := p
  obtain ⟨line', _⟩ := q
  simp only [Position.mk.injEq, toNat, ← UInt32.toNat_inj] at *
  omega

theorem lt_trichotomy (p q : Position) : p < q ∨ p = q ∨ q < p := by
  rw [lt_iff_toNat, eq_iff_toNat, lt_iff_toNat]
  omega

theorem le_iff_lt_or_eq {p q : Position} : p ≤ q ↔ p < q ∨ p = q := by
  rw [le_iff_toNat, lt_iff_toNat, eq_iff_toNat]
  omega

end Position

namespace LineIndex

theorem offset?_injective {text : Octets} {p q : Position} {k : Nat}
    (atP : (ofText text).offset? p = some k) (atQ : (ofText text).offset? q = some k) : p = q := by
  rcases Position.lt_trichotomy p q with before | same | after
  · exact absurd (offset?_lt_offset? atP atQ before) (Nat.lt_irrefl k)
  · exact same
  · exact absurd (offset?_lt_offset? atQ atP after) (Nat.lt_irrefl k)

theorem lt_of_offset?_lt {text : Octets} {p q : Position} {a b : Nat}
    (atP : (ofText text).offset? p = some a) (atQ : (ofText text).offset? q = some b)
    (before : a < b) : p < q := by
  rcases Position.lt_trichotomy p q with earlier | rfl | later
  · exact earlier
  · have same := Option.some.inj (atP.symm.trans atQ)
    omega
  · have after := offset?_lt_offset? atQ atP later
    omega

theorem offset?_lt_iff {text : Octets} {p q : Position} {a b : Nat}
    (atP : (ofText text).offset? p = some a) (atQ : (ofText text).offset? q = some b) :
    a < b ↔ p.toNat < q.toNat := by
  rw [← Position.lt_iff_toNat]
  exact ⟨lt_of_offset?_lt atP atQ, offset?_lt_offset? atP atQ⟩

theorem offset?_le_offset? {text : Octets} {p q : Position} {a b : Nat}
    (atP : (ofText text).offset? p = some a) (atQ : (ofText text).offset? q = some b)
    (before : p ≤ q) : a ≤ b := by
  rcases Position.le_iff_lt_or_eq.mp before with earlier | rfl
  · exact (offset?_lt_offset? atP atQ earlier).le
  · exact (Option.some.inj (atP.symm.trans atQ)).le

theorem offset?_le_iff {text : Octets} {p q : Position} {a b : Nat}
    (atP : (ofText text).offset? p = some a) (atQ : (ofText text).offset? q = some b) : a ≤ b ↔ p ≤ q := by
  rw [Position.le_iff_toNat, ← Nat.not_lt, ← Nat.not_lt, offset?_lt_iff atQ atP]

end LineIndex

section PositionAt

variable {text : Octets} {k : Nat}

/-- Going on from an offset leads into a line that starts at or before the place reached, and whose newline is
not passed. The current line starts `column` octets before the offset. -/
theorem advance_eq (row column offset : Nat) (inside : k ≤ text.length) (reached : column ≤ offset) :
    ∃ line start rest, advance row column k text = (row + line, rest) ∧ line ≤ k ∧
      ((offset - column) :: LineIndex.lineStarts offset text)[line]? = some start ∧ start + rest = offset + k ∧
      ∀ next, ((offset - column) :: LineIndex.lineStarts offset text)[line + 1]? = some next → offset + k < next := by
  induction text generalizing row column offset k with
  | nil =>
    obtain rfl : k = 0 := by simpa using inside
    exact ⟨0, offset - column, column, rfl, le_rfl, rfl, by omega, by simp [LineIndex.lineStarts]⟩
  | cons b text ih =>
    cases k with
    | zero =>
      refine ⟨0, offset - column, column, rfl, le_rfl, rfl, by omega, ?_⟩
      intro next atNext
      have bounds := LineIndex.mem_lineStarts_bounds (List.mem_of_getElem? (by simpa using atNext))
      omega
    | succ k =>
      rw [advance, LineIndex.lineStarts]
      have inside' : k ≤ text.length := by simpa using inside
      by_cases newline : b == Octets.newline
      · obtain ⟨line, start, rest, reaches, few, atLine, sum, later⟩ :=
          ih (row + 1) 0 (offset + 1) inside' (Nat.zero_le _)
        rw [if_pos newline, if_pos newline]
        refine ⟨line + 1, start, rest, ?_, by omega, ?_, by omega, ?_⟩
        · rw [reaches, Nat.add_right_comm, Nat.add_assoc]
        · simpa using atLine
        · intro next atNext
          have behind := later next (by simpa using atNext)
          omega
      · obtain ⟨line, start, rest, reaches, few, atLine, sum, later⟩ :=
          ih row (column + 1) (offset + 1) inside' (Nat.add_le_add_right reached 1)
        rw [if_neg newline, if_neg newline]
        rw [Nat.add_sub_add_right] at atLine later
        refine ⟨line, start, rest, reaches, by omega, atLine, by omega, ?_⟩
        intro next atNext
        have behind := later next atNext
        omega

theorem toNat_clamp {n : Nat} (fits : n < 4294967296) : (clamp n).toNat = n := by
  rw [clamp, if_pos fits]
  exact Nat.mod_eq_of_lt fits

/-- The position of an offset leads back to it, as long as no coordinate is cut off. -/
theorem offset?_positionAt (short : text.length < 4294967295) (inside : k ≤ text.length) :
    (LineIndex.ofText text).offset? (positionAt text k) = some k := by
  obtain ⟨line, start, rest, reaches, few, atLine, sum, later⟩ :=
    advance_eq 0 0 0 inside le_rfl
  have row : (positionAt text k).line.toNat = line + 1 := by
    rw [positionAt, reaches, Nat.zero_add]
    exact toNat_clamp (by omega)
  have column : (positionAt text k).column.toNat = rest + 1 := by
    rw [positionAt, reaches]
    exact toNat_clamp (by omega)
  rw [LineIndex.offset?_eq_some_iff, row, column]
  refine ⟨by omega, by omega, start, atLine, by omega, ?_⟩
  unfold LineIndex.lineEnd
  split
  · rename_i next atNext
    have behind := later next atNext
    omega
  · exact inside

theorem positionAt_le {l : Nat} (short : text.length < 4294967295) (inside : l ≤ text.length) (before : k ≤ l) :
    positionAt text k ≤ positionAt text l :=
  (LineIndex.offset?_le_iff (offset?_positionAt short (before.trans inside)) (offset?_positionAt short inside)).mp
    before

end PositionAt

end SourceCoverage
