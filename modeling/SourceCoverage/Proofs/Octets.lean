import Mathlib.Data.List.TakeWhile
import Mathlib.Order.Nat
import SourceCoverage.Octets

namespace SourceCoverage.Octets

theorem after?_eq_some_iff {head text rest : Octets} : after? head text = some rest ↔ text = head ++ rest := by
  constructor
  · exact eq_append_of_after?
  · rintro rfl
    exact after?_append head rest

theorem startsWith_iff {head text : Octets} : startsWith head text = true ↔ ∃ rest, text = head ++ rest := by
  simp only [startsWith, Option.isSome_iff_exists, after?_eq_some_iff]

theorem startsWith_append (head rest : Octets) : startsWith head (head ++ rest) = true :=
  startsWith_iff.mpr ⟨rest, rfl⟩

theorem startsWith_false_of_head {h b : UInt8} {head text : Octets} (different : h ≠ b) :
    startsWith (h :: head) (b :: text) = false := by
  simp [startsWith, after?, different]

/-- Whether a pattern stands at the front of a text is decided by as many octets as it has. -/
theorem startsWith_append_congr {pattern text : Octets} (rest rest' : Octets) (fits : pattern.length ≤ text.length) :
    startsWith pattern (text ++ rest) = startsWith pattern (text ++ rest') := by
  induction pattern generalizing text with
  | nil => simp [startsWith, after?]
  | cons p pattern ih =>
    cases text with
    | nil => simp at fits
    | cons t text =>
      have shorter : pattern.length ≤ text.length := by simpa using fits
      have inner := ih shorter
      simp only [startsWith, List.cons_append, after?] at inner ⊢
      split
      · exact inner
      · rfl

theorem length_le_of_startsWith {pattern text : Octets} (starts : startsWith pattern text = true) :
    pattern.length ≤ text.length := by
  obtain ⟨rest, rfl⟩ := startsWith_iff.mp starts
  simp

theorem indexFrom?_bounds {pattern text : Octets} {index found : Nat}
    (search : indexFrom? pattern index text = some found) :
    index ≤ found ∧ found + pattern.length ≤ index + text.length := by
  induction text generalizing index with
  | nil =>
    simp only [indexFrom?, Option.ite_none_right_eq_some, Option.some.injEq, List.isEmpty_iff] at search
    obtain ⟨rfl, rfl⟩ := search
    simp
  | cons t text ih =>
    unfold indexFrom? at search
    split at search
    · rename_i starts
      have within := length_le_of_startsWith starts
      cases search
      omega
    · have bounds := ih search
      simp only [List.length_cons]
      omega

theorem startsWith_of_indexFrom? {pattern text : Octets} {index found : Nat}
    (search : indexFrom? pattern index text = some found) :
    startsWith pattern (text.drop (found - index)) = true := by
  induction text generalizing index with
  | nil =>
    simp only [indexFrom?, Option.ite_none_right_eq_some, Option.some.injEq, List.isEmpty_iff] at search
    obtain ⟨rfl, rfl⟩ := search
    simp [startsWith, after?]
  | cons t text ih =>
    unfold indexFrom? at search
    split at search
    · rename_i starts
      cases search
      simpa using starts
    · have later := (indexFrom?_bounds search).1
      have inner := ih search
      rw [show found - index = (found - (index + 1)) + 1 by omega, List.drop_succ_cons]
      exact inner

/-- A pattern that is found inside a text is found there whatever follows. -/
theorem indexFrom?_append {pattern text : Octets} (rest rest' : Octets) {index found : Nat}
    (search : indexFrom? pattern index (text ++ rest) = some found)
    (inside : found + pattern.length ≤ index + text.length) (nonempty : pattern ≠ []) :
    indexFrom? pattern index (text ++ rest') = some found := by
  have positive := List.length_pos_iff.mpr nonempty
  induction text generalizing index with
  | nil =>
    have bounds := indexFrom?_bounds search
    simp only [List.length_nil] at inside
    omega
  | cons t text ih =>
    have enough : pattern.length ≤ (t :: text).length := by
      have bounds := indexFrom?_bounds search
      simp only [List.length_cons] at inside ⊢
      omega
    have same := startsWith_append_congr rest rest' enough
    simp only [List.cons_append, indexFrom?] at search same ⊢
    rw [← same]
    split at search
    · rename_i starts
      rw [if_pos starts]
      exact search
    · rename_i apart
      rw [if_neg apart]
      simp only [List.length_cons] at inside
      exact ih search (by omega)

theorem indexOf?_append {pattern text : Octets} (rest rest' : Octets) {found : Nat}
    (search : indexOf? pattern (text ++ rest) = some found)
    (inside : found + pattern.length ≤ text.length) (nonempty : pattern ≠ []) :
    indexOf? pattern (text ++ rest') = some found :=
  indexFrom?_append rest rest' search (by simpa using inside) nonempty

/-- All octets of `text` have a property, and what follows starts without it. -/
theorem takeWhile_append_of_stop {p : UInt8 → Bool} {text rest : Octets} (all : ∀ b ∈ text, p b = true)
    (stop : ∀ b, rest.head? = some b → p b = false) : (text ++ rest).takeWhile p = text := by
  rw [List.takeWhile_append_of_pos all]
  have none : rest.takeWhile p = [] := by
    cases rest with
    | nil => rfl
    | cons b rest => simp [stop b rfl]
  rw [none, List.append_nil]

theorem takeWhile_line {line rest : Octets} (onOneLine : newline ∉ line) :
    (line ++ newline :: rest).takeWhile (· != newline) = line := by
  refine takeWhile_append_of_stop ?_ ?_
  · intro b member
    rw [bne_iff_ne]
    rintro rfl
    exact onOneLine member
  · rintro b ⟨⟩
    simp

theorem stop_of_length_takeWhile {p : UInt8 → Bool} {text rest : Octets}
    (length : ((text ++ rest).takeWhile p).length = text.length) :
    (∀ b ∈ text, p b = true) ∧ ∀ b, rest.head? = some b → p b = false := by
  induction text with
  | nil =>
    refine ⟨by simp, ?_⟩
    intro b first
    cases rest with
    | nil => simp at first
    | cons c rest =>
      obtain rfl : c = b := by simpa using first
      simpa using length
  | cons t text ih =>
    by_cases holds : p t = true
    · have inner := ih (by simpa [holds] using length)
      exact ⟨List.forall_mem_cons.mpr ⟨holds, inner.1⟩, inner.2⟩
    · simp [holds] at length

theorem toList_hex (text : Octets) :
    (hex text).toList = text.flatMap fun b => [hexDigit (b.toNat / 16), hexDigit (b.toNat % 16)] := by
  have spelled : ∀ (text : Octets) (out : String),
      (text.foldl (fun out b => (out.push (hexDigit (b.toNat / 16))).push (hexDigit (b.toNat % 16))) out).toList =
        out.toList ++ text.flatMap fun b => [hexDigit (b.toNat / 16), hexDigit (b.toNat % 16)] := by
    intro text
    induction text with
    | nil => simp
    | cons b text ih =>
      intro out
      rw [List.foldl_cons, ih, List.flatMap_cons]
      simp [String.toList_push]
  exact spelled text ""

theorem length_hex (text : Octets) : (hex text).toList.length = 2 * text.length := by
  rw [toList_hex]
  induction text with
  | nil => rfl
  | cons b text ih =>
    rw [List.flatMap_cons, List.length_append, ih, List.length_cons, List.length_cons, List.length_cons,
      List.length_nil]
    omega

theorem notMem_hex {c : Char} (noDigit : ∀ n < 16, hexDigit n ≠ c) (text : Octets) : c ∉ (hex text).toList := by
  rw [toList_hex]
  intro member
  obtain ⟨b, _, digit⟩ := List.mem_flatMap.mp member
  have bound := b.toNat_lt
  simp only [List.mem_cons, List.not_mem_nil, or_false] at digit
  rcases digit with rfl | rfl
  · exact noDigit (b.toNat / 16) (by omega) rfl
  · exact noDigit (b.toNat % 16) (by omega) rfl

end SourceCoverage.Octets
