import Mathlib.Data.List.Forall2
import SourceCoverage.Proofs.Stripping.Merge

namespace SourceCoverage

open Octets Token Stripping

namespace FrameKind

/-- The depth after a token. -/
def after (k : FrameKind) (depth : Nat) (t : TokenKind) : Nat :=
  if t = k.opening then depth + 1 else if t = k.closing then depth - 1 else depth

/-- The depth after lexemes that close no bracket but those that they open. -/
def level (k : FrameKind) : Nat → List Lexeme → Option Nat
  | depth, [] => some depth
  | depth, l :: lexemes =>
    if l.kind = k.closing ∧ depth = 0 then none else k.level (k.after depth l.kind) lexemes

/-- Every bracket is closed and none is closed that was not opened. -/
def Balanced (k : FrameKind) (lexemes : List Lexeme) : Prop := k.level 0 lexemes = some 0

instance (k : FrameKind) (lexemes : List Lexeme) : Decidable (k.Balanced lexemes) :=
  inferInstanceAs (Decidable (_ = _))

theorem depth_after (k : FrameKind) (parens braces : Nat) (t : TokenKind) :
    k.depth (t.parensAfter parens) (t.bracesAfter braces) = k.after (k.depth parens braces) t := by
  cases k <;> cases t <;> rfl

theorem after_add {k : FrameKind} {t : TokenKind} {depth : Nat} (opened : t = k.closing → 0 < depth) (below : Nat) :
    k.after (below + depth) t = below + k.after depth t := by
  unfold after
  split_ifs with opens closes
  · omega
  · have := opened closes
    omega
  · rfl

theorem level_cons {k : FrameKind} {depth : Nat} {l : Lexeme} {lexemes : List Lexeme}
    (level : k.level depth (l :: lexemes) = some 0) :
    (l.kind = k.closing → 0 < depth) ∧ k.level (k.after depth l.kind) lexemes = some 0 := by
  simp only [FrameKind.level] at level
  split_ifs at level with unopened
  exact ⟨fun closes => Nat.pos_of_ne_zero fun zero => unopened ⟨closes, zero⟩, level⟩

end FrameKind

/-- Each closer belongs to the last opener that is still open. -/
def Matches : List Marker → List Part → Prop
  | opened, [] => opened = []
  | opened, .checkpoint _ :: parts => Matches opened parts
  | opened, .opener m :: parts => Matches (m :: opened) parts
  | opened, .closer m :: parts => ∃ below, opened = m :: below ∧ Matches below parts

theorem WellNested.matches_append {parts rest : List Part} (nested : WellNested parts) {opened : List Marker}
    (others : Matches opened rest) : Matches opened (parts ++ rest) := by
  induction nested generalizing opened rest with
  | nil => exact others
  | checkpoint m _ ih => exact ih others
  | enclose m _ _ inside behind =>
    rw [List.cons_append, List.append_assoc]
    exact inside ⟨opened, rfl, behind others⟩

theorem Matches.closer_mem {opened : List Marker} {parts : List Part} (nested : Matches opened parts) {m : Marker}
    (member : m ∈ opened) : Part.closer m ∈ parts := by
  induction parts generalizing opened with
  | nil =>
    rw [show opened = [] from nested] at member
    cases member
  | cons p parts ih =>
    cases p with
    | checkpoint n => exact List.mem_cons_of_mem _ (ih nested member)
    | opener n => exact List.mem_cons_of_mem _ (ih nested (List.mem_cons_of_mem _ member))
    | closer n =>
      obtain ⟨below, rfl, nested⟩ := nested
      rcases List.mem_cons.mp member with rfl | deeper
      · exact List.mem_cons_self
      · exact List.mem_cons_of_mem _ (ih nested deeper)

namespace Instrumenter

variable {i : Instrumenter} {last : Option Lexeme} {start parens braces : Nat} {source : Octets} {p : Part}
  {m : Marker} {parts : List Part} {l : Lexeme} {lexemes : List Lexeme} {opened : List Marker}
  {frame : FrameKind × Nat} {frames : List (FrameKind × Nat)}

/-- The lexemes that are left inside an open marker lead back to the depth at which it was opened. -/
def Returns (i : Instrumenter) (parens braces : Nat) (lexemes : List Lexeme) (m : Marker)
    (frame : FrameKind × Nat) : Prop :=
  ∃ depth, m.mark parens braces = (frame.1, frame.2 + depth) ∧
    m.frameKind.level depth (lexemes.filter fun l => l.offset < (i.spanOf m).stop) = some 0

theorem Returns.lexeme (returns : Returns i parens braces (l :: lexemes) m frame)
    (inside : l.offset < (i.spanOf m).stop) :
    (∀ k : FrameKind, l.kind = k.closing → frame ≠ (k, k.depth parens braces)) ∧
      Returns i (l.kind.parensAfter parens) (l.kind.bracesAfter braces) lexemes m frame := by
  obtain ⟨depth, mark, level⟩ := returns
  rw [List.filter_cons_of_pos (by simpa using inside)] at level
  obtain ⟨opened, level⟩ := FrameKind.level_cons level
  obtain ⟨kind, height⟩ := Prod.mk.inj mark
  constructor
  · rintro k closes rfl
    simp only at kind height
    rw [kind] at height opened
    have := opened closes
    omega
  · refine ⟨m.frameKind.after depth l.kind, ?_, level⟩
    rw [Marker.mark, FrameKind.depth_after, height, FrameKind.after_add opened, kind]

theorem closes_lexemes (parens braces : Nat) (lexemes : List Lexeme) :
    Arrangement.Closes [] parens braces (lexemes.map .lexeme) := by
  induction lexemes generalizing parens braces with
  | nil => rfl
  | cons l lexemes ih => exact ⟨fun _ _ => by simp, ih _ _⟩

/-- The brackets between the two parts of each marker that is still to come are balanced. -/
def BalancedWithin (i : Instrumenter) (lexemes : List Lexeme) (m : Marker) : Prop :=
  m.frameKind.Balanced
    (lexemes.filter fun l => (i.spanOf m).start ≤ l.offset ∧ l.offset < (i.spanOf m).stop)

instance (i : Instrumenter) (lexemes : List Lexeme) (m : Marker) : Decidable (BalancedWithin i lexemes m) :=
  inferInstanceAs (Decidable (FrameKind.Balanced _ _))

/-- A part where the lexemes start opens or closes its marker at the depth that is reached there. -/
theorem closes_part (before : ∀ l ∈ lexemes, i.placeOf p ≤ l.offset) (nested : Matches opened (p :: parts))
    (returns : List.Forall₂ (Returns i parens braces lexemes) opened frames)
    (balanced : ∀ m, .opener m ∈ p :: parts → BalancedWithin i lexemes m)
    (inner : ∀ {opened : List Marker} {frames : List (FrameKind × Nat)}, Matches opened parts →
      List.Forall₂ (Returns i parens braces lexemes) opened frames →
      Arrangement.Closes frames parens braces (i.arrange parts lexemes)) :
    Arrangement.Closes frames parens braces (.part p :: i.arrange parts lexemes) := by
  cases p with
  | checkpoint m => exact inner nested returns
  | opener m =>
    refine inner nested (.cons ⟨0, rfl, ?_⟩ returns)
    have whole := balanced m List.mem_cons_self
    have same : lexemes.filter (fun l => (i.spanOf m).start ≤ l.offset ∧ l.offset < (i.spanOf m).stop) =
        lexemes.filter fun l => l.offset < (i.spanOf m).stop := by
      refine List.filter_congr ?_
      intro l member
      have place : (i.spanOf m).start ≤ l.offset := before l member
      simp [place]
    rwa [BalancedWithin, same] at whole
  | closer m =>
    obtain ⟨below, rfl, nested⟩ := nested
    cases returns with
    | @cons _ frame _ frames first others =>
      refine ⟨frames, ?_, inner nested others⟩
      obtain ⟨depth, mark, level⟩ := first
      have none : lexemes.filter (fun l => l.offset < (i.spanOf m).stop) = [] := by
        rw [List.filter_eq_nil_iff]
        intro l member
        have place : (i.spanOf m).stop ≤ l.offset := before l member
        simpa using place
      rw [none] at level
      obtain rfl : depth = 0 := Option.some.inj level
      rw [mark]
      rfl

theorem closes_arrange (merging : Merging i last start source parts lexemes) (nested : Matches opened parts)
    (returns : List.Forall₂ (Returns i parens braces lexemes) opened frames)
    (balanced : ∀ m, .opener m ∈ parts → BalancedWithin i lexemes m) :
    Arrangement.Closes frames parens braces (i.arrange parts lexemes) := by
  fun_induction arrange i parts lexemes generalizing last start source opened frames parens braces with
  | case1 lexemes =>
    obtain rfl : opened = [] := nested
    cases returns
    exact closes_lexemes parens braces lexemes
  | case2 p parts ih =>
    refine closes_part (by simp) nested returns balanced ?_
    intro opened frames nested returns
    exact ih merging.tail nested returns fun m member => balanced m (List.mem_cons_of_mem _ member)
  | case3 p parts l lexemes first ih =>
    refine closes_part ?_ nested returns balanced ?_
    · intro r member
      have offset := merging.scanned.offset_le r member
      rw [merging.offset_eq] at first
      exact first.trans offset
    · intro opened frames nested returns
      exact ih merging.tail nested returns fun m member => balanced m (List.mem_cons_of_mem _ member)
  | case4 p parts l lexemes apart ih =>
    have later := merging.later apart
    obtain ⟨rest, _, inner⟩ := merging.next later
    have inside {m : Marker} (member : m ∈ opened) : l.offset < (i.spanOf m).stop :=
      later _ (nested.closer_mem member)
    refine ⟨?_, ih inner nested ?_ ?_⟩
    · intro k closes
      cases returns with
      | nil => simp
      | cons first _ =>
        have apart := (first.lexeme (inside List.mem_cons_self)).1 k closes
        simpa using apart
    · have both := (List.forall₂_and_left opened frames).mpr ⟨fun _ member => inside member, returns⟩
      exact both.imp fun _ _ both => (both.2.lexeme both.1).2
    · intro m member
      have whole := balanced m member
      have before : ¬ (i.spanOf m).start ≤ l.offset := by
        have place : l.offset < (i.spanOf m).start := later _ member
        omega
      rwa [BalancedWithin, List.filter_cons_of_neg (by simpa using fun inside => absurd inside before)] at whole

end Instrumenter

end SourceCoverage
