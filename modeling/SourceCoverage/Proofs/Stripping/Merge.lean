import SourceCoverage.Proofs.Instrumented.Layout
import SourceCoverage.Proofs.Stripping.Division

namespace SourceCoverage

open Octets Token Stripping

namespace Instrumenter

/-- The parts and the lexemes in the order of their offsets, a part before the lexeme at its offset. -/
def arrange (i : Instrumenter) : List Part → List Lexeme → Arrangement
  | [], lexemes => lexemes.map .lexeme
  | p :: parts, [] => .part p :: i.arrange parts []
  | p :: parts, l :: lexemes =>
    if i.placeOf p ≤ l.offset then .part p :: i.arrange parts (l :: lexemes)
    else .lexeme l :: i.arrange (p :: parts) lexemes
termination_by parts lexemes => parts.length + lexemes.length

/-- The parts from offset `start` on, and the lexemes that are read there behind the lexeme `last`. -/
structure Merging (i : Instrumenter) (last : Option Lexeme) (start : Nat) (source : Octets) (parts : List Part)
    (lexemes : List Lexeme) : Prop where
  scanned : Scanned last start source lexemes
  ahead : i.source.drop start = source
  behind : (i.source.take start).getLast? = lastOctet last
  sorted : parts.Pairwise fun p q => i.placeOf p ≤ i.placeOf q
  placed : ∀ p ∈ parts, (i.placeOf p = start ∧ ∀ l, last = some l → l.Admits p) ∨
    ∃ l ∈ lexemes, l.stop = i.placeOf p ∧ l.Admits p

namespace Merging

variable {i : Instrumenter} {last : Option Lexeme} {start : Nat} {source : Octets} {p : Part} {parts : List Part}
  {l : Lexeme} {lexemes : List Lexeme}

theorem start_le (merging : Merging i last start source parts lexemes) {q : Part} (member : q ∈ parts) :
    start ≤ i.placeOf q := by
  rcases merging.placed q member with ⟨same, _⟩ | ⟨l, inside, stop, _⟩
  · exact same.ge
  · have first := merging.scanned.offset_le l inside
    rw [← stop, Lexeme.stop]
    omega

theorem tail (merging : Merging i last start source (p :: parts) lexemes) :
    Merging i last start source parts lexemes where
  scanned := merging.scanned
  ahead := merging.ahead
  behind := merging.behind
  sorted := (List.pairwise_cons.mp merging.sorted).2
  placed q member := merging.placed q (List.mem_cons_of_mem _ member)

/-- A part where the lexemes start is admitted by the lexeme before it. -/
theorem first (merging : Merging i last start source (p :: parts) lexemes) (place : i.placeOf p ≤ start) :
    i.placeOf p = start ∧ ∀ l, last = some l → l.Admits p := by
  rcases merging.placed p List.mem_cons_self with found | ⟨l, inside, stop, _⟩
  · exact found
  · have := merging.scanned.lt_stop l inside
    omega

theorem offset_eq (merging : Merging i last start source parts (l :: lexemes)) : l.offset = start := by
  cases merging.scanned with
  | cons _ _ => rfl

/-- The first part stands behind the first lexeme. -/
theorem next (merging : Merging i last start source parts (l :: lexemes))
    (later : ∀ q ∈ parts, l.offset < i.placeOf q) :
    ∃ rest, source = l.text ++ rest ∧ Merging i (some l) l.stop rest parts lexemes := by
  have first := merging.offset_eq
  obtain ⟨scanned, ahead, behind, sorted, placed⟩ := merging
  cases scanned with
  | @cons _ _ b tail rest kind _ read inner =>
    refine ⟨rest, rfl, inner, ?_, ?_, sorted, ?_⟩
    · rw [Lexeme.stop, ← List.drop_drop, ahead]
      exact List.drop_left
    · have split : i.source.take (start + (b :: tail).length) = i.source.take start ++ b :: tail := by
        rw [List.take_add, ahead]
        congr 1
        exact List.take_left
      rw [Lexeme.stop, split, List.getLast?_append]
      simp [lastOctet, List.getLast?_cons]
    · intro q member
      rcases placed q member with ⟨same, _⟩ | ⟨l, inside, stop, admits⟩
      · have := later q member
        simp only at this
        omega
      · rcases List.mem_cons.mp inside with rfl | deeper
        · refine Or.inl ⟨stop.symm, ?_⟩
          rintro l ⟨⟩
          exact admits
        · exact Or.inr ⟨l, deeper, stop, admits⟩

/-- With the first part all parts stand behind the first lexeme. -/
theorem later (merging : Merging i last start source (p :: parts) (l :: lexemes))
    (apart : ¬ i.placeOf p ≤ l.offset) : ∀ q ∈ p :: parts, l.offset < i.placeOf q := by
  intro q member
  rcases List.mem_cons.mp member with rfl | behind
  · omega
  · have ordered := (List.pairwise_cons.mp merging.sorted).1 q behind
    omega

theorem le_start (merging : Merging i last start source (p :: parts) []) : i.placeOf p ≤ start := by
  rcases merging.placed p List.mem_cons_self with ⟨same, _⟩ | ⟨l, inside, _⟩
  · exact same.le
  · cases inside

end Merging

@[simp] theorem source_arrange (i : Instrumenter) (parts : List Part) (lexemes : List Lexeme) :
    Arrangement.source (i.arrange parts lexemes) = lexemes.flatMap Lexeme.text := by
  fun_induction arrange i parts lexemes with
  | case1 lexemes => simp [Arrangement.source, List.flatMap_map, Item.source]
  | case2 p parts ih => simpa using ih
  | case3 p parts l lexemes _ ih => simpa using ih
  | case4 p parts l lexemes _ ih => simpa using ih

/-- Source in front of all insertions stays in front of them. -/
theorem splice_append {i : Instrumenter} (front : Octets) {start : Nat} {source : Octets} {parts : List Part}
    (later : ∀ p ∈ parts, start + front.length ≤ i.placeOf p) :
    Insertion.splice start (front ++ source) (parts.map i.insertionOf) =
      front ++ Insertion.splice (start + front.length) source (parts.map i.insertionOf) := by
  cases parts with
  | nil => rfl
  | cons p parts =>
    have place := later p List.mem_cons_self
    have gap : i.placeOf p - start = front.length + (i.placeOf p - (start + front.length)) := by omega
    simp only [List.map_cons, Insertion.splice, insertionOf, gap, List.take_length_add_append,
      List.drop_length_add_append, List.append_assoc]

theorem text_arrange {i : Instrumenter} {last : Option Lexeme} {start : Nat} {source : Octets} {parts : List Part}
    {lexemes : List Lexeme} (merging : Merging i last start source parts lexemes) :
    Arrangement.text i.probes (i.arrange parts lexemes) =
      Insertion.splice start source (parts.map i.insertionOf) := by
  fun_induction arrange i parts lexemes generalizing last start source with
  | case1 lexemes =>
    rw [List.map_nil, Insertion.splice, ← merging.scanned.flatMap_text]
    simp [Arrangement.text, List.flatMap_map, Item.text]
  | case2 p parts ih =>
    obtain ⟨place, _⟩ := merging.first merging.le_start
    simp [Insertion.splice, insertionOf, place, ih merging.tail]
  | case3 p parts l lexemes first ih =>
    obtain ⟨place, _⟩ := merging.first (merging.offset_eq ▸ first)
    simp [Insertion.splice, insertionOf, place, ih merging.tail]
  | case4 p parts l lexemes apart ih =>
    have start' := merging.offset_eq
    obtain ⟨rest, rfl, inner⟩ := merging.next (merging.later apart)
    have stop : l.stop = start + l.text.length := by rw [Lexeme.stop, start']
    rw [Arrangement.text_lexeme, ih inner, stop, splice_append]
    intro q member
    rw [← stop]
    exact inner.start_le member

theorem arranged_of_scanned {names : ProbeNames} {last : Option Lexeme} {start : Nat} {source : Octets}
    {lexemes : List Lexeme} (scanned : Scanned last start source lexemes)
    (words : ∀ l ∈ lexemes, l.kind = .word → l.text ≠ Utf8.encode names.checkpoint ∧
      l.text ≠ Utf8.encode names.evaluation) : Arranged names last (lexemes.map .lexeme) := by
  induction scanned with
  | nil => exact .nil
  | @cons _ _ b tail rest kind lexemes read inner ih =>
    have octets : Arrangement.source (lexemes.map .lexeme) = rest := by
      rw [← inner.flatMap_text]
      simp [Arrangement.source, List.flatMap_map, Item.source]
    refine .lexeme (by rw [octets]; exact read) (words _ List.mem_cons_self) (ih ?_)
    exact fun l member => words l (List.mem_cons_of_mem _ member)

/-- The arrangement of the parts changes no lexeme, unless a part tears an `R` from a quote. -/
theorem arranged_arrange {i : Instrumenter} {last : Option Lexeme} {start : Nat} {source : Octets}
    {parts : List Part} {lexemes : List Lexeme} (merging : Merging i last start source parts lexemes)
    (words : ∀ l ∈ lexemes, l.kind = .word →
      l.text ≠ Utf8.encode i.probes.names.checkpoint ∧ l.text ≠ Utf8.encode i.probes.names.evaluation)
    (raw : ∀ p ∈ parts, ¬ ((i.source.take (i.placeOf p)).getLast? = some (ascii 'R') ∧
      (i.source.drop (i.placeOf p)).head? = some (ascii '"'))) :
    Arranged i.probes.names last (i.arrange parts lexemes) := by
  have part {last : Option Lexeme} {start : Nat} {source : Octets} {p : Part} {parts : List Part}
      {lexemes : List Lexeme} (merging : Merging i last start source (p :: parts) lexemes)
      (place : i.placeOf p ≤ start) (raw : ¬ ((i.source.take (i.placeOf p)).getLast? = some (ascii 'R') ∧
        (i.source.drop (i.placeOf p)).head? = some (ascii '"')))
      (inner : Arranged i.probes.names last (i.arrange parts lexemes)) :
      Arranged i.probes.names last (.part p :: i.arrange parts lexemes) := by
    obtain ⟨same, admits⟩ := merging.first place
    refine .part admits ?_ inner
    rw [source_arrange, merging.scanned.flatMap_text, ← merging.behind, ← merging.ahead, ← same]
    exact raw
  fun_induction arrange i parts lexemes generalizing last start source with
  | case1 lexemes => exact arranged_of_scanned merging.scanned words
  | case2 p parts ih =>
    refine part merging merging.le_start (raw p List.mem_cons_self) (ih merging.tail words ?_)
    exact fun q member => raw q (List.mem_cons_of_mem _ member)
  | case3 p parts l lexemes first ih =>
    refine part merging (merging.offset_eq ▸ first) (raw p List.mem_cons_self) (ih merging.tail words ?_)
    exact fun q member => raw q (List.mem_cons_of_mem _ member)
  | case4 p parts l lexemes apart ih =>
    obtain ⟨rest, split, inner⟩ := merging.next (merging.later apart)
    have deeper := ih inner (fun l member => words l (List.mem_cons_of_mem _ member)) raw
    cases merging.scanned with
    | @cons _ _ b tail rest' kind _ read scanned =>
      have octets : Arrangement.source (i.arrange (p :: parts) lexemes) = rest' := by
        rw [source_arrange, scanned.flatMap_text]
      exact .lexeme (by rw [octets]; exact read) (words _ List.mem_cons_self) deeper

end Instrumenter

end SourceCoverage
