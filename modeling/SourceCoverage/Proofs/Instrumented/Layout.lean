import SourceCoverage.Proofs.Instrumented.Nesting
import SourceCoverage.Proofs.Utf8

namespace SourceCoverage

inductive Fragment where
  | octet (b : UInt8)
  | part (p : Part)
deriving DecidableEq, Repr

abbrev Layout := List Fragment

def Fragment.octet? : Fragment → Option UInt8
  | octet b => some b
  | part _ => none

def Fragment.part? : Fragment → Option Part
  | octet _ => none
  | part p => some p

def Fragment.text (probes : Probes) : Fragment → Octets
  | octet b => [b]
  | part p => p.text probes

namespace Layout

def source (layout : Layout) : Octets := layout.filterMap Fragment.octet?

def parts (layout : Layout) : List Part := layout.filterMap Fragment.part?

def text (probes : Probes) (layout : Layout) : Octets := layout.flatMap (Fragment.text probes)

def ofOctets (octets : Octets) : Layout := octets.map .octet

@[simp] theorem source_append (a b : Layout) : source (a ++ b) = source a ++ source b := List.filterMap_append

@[simp] theorem parts_append (a b : Layout) : parts (a ++ b) = parts a ++ parts b := List.filterMap_append

@[simp] theorem text_append (probes : Probes) (a b : Layout) :
    text probes (a ++ b) = text probes a ++ text probes b := List.flatMap_append

@[simp] theorem source_octet (b : UInt8) (rest : Layout) : source (.octet b :: rest) = b :: source rest := rfl

@[simp] theorem source_part (p : Part) (rest : Layout) : source (.part p :: rest) = source rest := rfl

@[simp] theorem parts_octet (b : UInt8) (rest : Layout) : parts (.octet b :: rest) = parts rest := rfl

@[simp] theorem parts_part (p : Part) (rest : Layout) : parts (.part p :: rest) = p :: parts rest := rfl

@[simp] theorem text_octet (probes : Probes) (b : UInt8) (rest : Layout) :
    text probes (.octet b :: rest) = b :: text probes rest := rfl

@[simp] theorem text_part (probes : Probes) (p : Part) (rest : Layout) :
    text probes (.part p :: rest) = p.text probes ++ text probes rest := rfl

@[simp] theorem source_ofOctets (octets : Octets) : source (ofOctets octets) = octets := by
  simp [source, ofOctets, List.filterMap_map, Function.comp_def, Fragment.octet?]

@[simp] theorem parts_ofOctets (octets : Octets) : parts (ofOctets octets) = [] := by
  simp [parts, ofOctets, List.filterMap_map, Function.comp_def, Fragment.part?]

@[simp] theorem text_ofOctets (probes : Probes) (octets : Octets) : text probes (ofOctets octets) = octets := by
  simp [text, ofOctets, List.flatMap_map, Fragment.text]

end Layout

namespace Instrumenter

/-- Parts in order among the octets of a source that starts at offset `start`. -/
def layOut (i : Instrumenter) (start : Nat) (source : Octets) : List Part → Layout
  | [] => Layout.ofOctets source
  | p :: rest =>
    Layout.ofOctets (source.take (i.placeOf p - start)) ++
      .part p :: i.layOut (i.placeOf p) (source.drop (i.placeOf p - start)) rest

theorem text_layOut (i : Instrumenter) (parts : List Part) (start : Nat) (source : Octets) :
    Layout.text i.probes (i.layOut start source parts) =
      Insertion.splice start source (parts.map i.insertionOf) := by
  induction parts generalizing start source with
  | nil => simp [layOut, Insertion.splice]
  | cons p rest ih => simp [layOut, Insertion.splice, insertionOf, ih]

@[simp] theorem source_layOut (i : Instrumenter) (parts : List Part) (start : Nat) (source : Octets) :
    Layout.source (i.layOut start source parts) = source := by
  induction parts generalizing start source with
  | nil => simp [layOut]
  | cons p rest ih => simp [layOut, ih]

@[simp] theorem parts_layOut (i : Instrumenter) (parts : List Part) (start : Nat) (source : Octets) :
    Layout.parts (i.layOut start source parts) = parts := by
  induction parts generalizing start source with
  | nil => simp [layOut]
  | cons p rest ih => simp [layOut, ih]

/-- What stands in front of a part: the earlier parts, and the source up to the part's offset. -/
theorem layOut_split {i : Instrumenter} {earlier later : List Part} {p : Part} {start : Nat} (source : Octets)
    (sorted : (earlier ++ p :: later).Pairwise fun q r => i.placeOf q ≤ i.placeOf r)
    (bound : ∀ q ∈ earlier ++ p :: later, start ≤ i.placeOf q) :
    ∃ before, i.layOut start source (earlier ++ p :: later) =
        before ++ .part p :: i.layOut (i.placeOf p) (source.drop (i.placeOf p - start)) later ∧
      Layout.source before = source.take (i.placeOf p - start) ∧ Layout.parts before = earlier := by
  induction earlier generalizing start source with
  | nil => exact ⟨Layout.ofOctets (source.take (i.placeOf p - start)), rfl, by simp, by simp⟩
  | cons q earlier ih =>
    obtain ⟨first, rest⟩ := List.pairwise_cons.mp sorted
    have within := bound q List.mem_cons_self
    have ahead := first p (by simp)
    obtain ⟨before, layout, octets, parts⟩ := ih (source.drop (i.placeOf q - start)) rest first
    refine ⟨Layout.ofOctets (source.take (i.placeOf q - start)) ++ .part q :: before, ?_, ?_, ?_⟩
    · have gap : i.placeOf q - start + (i.placeOf p - i.placeOf q) = i.placeOf p - start := by omega
      rw [List.cons_append, layOut, layout, List.drop_drop, gap]
      simp
    · have gap : i.placeOf p - start = (i.placeOf q - start) + (i.placeOf p - i.placeOf q) := by omega
      simp only [Layout.source_append, Layout.source_ofOctets, Layout.source_part, octets]
      rw [gap, List.take_add]
    · simp [parts]

theorem sortedParts_placed {i : Instrumenter} {markers : List Marker} :
    (i.sortedParts markers).Pairwise fun p q => i.placeOf p ≤ i.placeOf q := by
  refine sortedParts_sorted.imp ?_
  intro p q before
  rcases Insertion.order_isLE_iff.mp before with earlier | ⟨same, _⟩
  · exact earlier.le
  · exact same.le

/-- The layout of an instrumented text. -/
def layout (i : Instrumenter) (markers : List Marker) : Layout := i.layOut 0 i.source (i.sortedParts markers)

end Instrumenter

end SourceCoverage
