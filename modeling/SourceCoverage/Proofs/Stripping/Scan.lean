import SourceCoverage.Proofs.Stripping.Token

namespace SourceCoverage

open Octets Token

namespace Stripping

/-- The stripper's loop without its tests for closers and probes: every token is kept. -/
def scan (previous : Option UInt8) (offset : Nat) : Octets → List Lexeme
  | [] => []
  | b :: rest =>
    let token := Token.next previous b rest
    ⟨offset, token.kind, (b :: rest).take token.length⟩ ::
      scan (((b :: rest)[token.length - 1]?).or previous) (offset + token.length) (rest.drop (token.length - 1))
termination_by text => text.length
decreasing_by simp only [List.length_drop, List.length_cons]; omega

/-- The last octet of what was scanned before. -/
def lastOctet (last : Option Lexeme) : Option UInt8 := last.bind (·.text.getLast?)

/-- The lexemes of a text that starts at `offset`, behind the lexeme `last`. -/
inductive Scanned : Option Lexeme → Nat → Octets → List Lexeme → Prop
  | nil {last : Option Lexeme} {offset : Nat} : Scanned last offset [] []
  | cons {last : Option Lexeme} {offset : Nat} {b : UInt8} {tail rest : Octets} {kind : TokenKind}
      {lexemes : List Lexeme} : Token.next (lastOctet last) b (tail ++ rest) = ⟨kind, tail.length + 1⟩ →
      Scanned (some ⟨offset, kind, b :: tail⟩) (offset + (tail.length + 1)) rest lexemes →
      Scanned last offset (b :: (tail ++ rest)) (⟨offset, kind, b :: tail⟩ :: lexemes)

/-- The octets of a token, and what is left behind it. -/
theorem exists_token (previous : Option UInt8) (b : UInt8) (text : Octets) :
    ∃ kind tail rest, text = tail ++ rest ∧ Token.next previous b (tail ++ rest) = ⟨kind, tail.length + 1⟩ := by
  obtain ⟨lower, upper⟩ := next_length_bounds previous b text
  generalize read : Token.next previous b text = token at lower upper
  obtain ⟨kind, length⟩ := token
  refine ⟨kind, text.take (length - 1), text.drop (length - 1), (List.take_append_drop _ _).symm, ?_⟩
  rw [List.take_append_drop, read, List.length_take, Token.mk.injEq]
  simp only at lower upper
  exact ⟨rfl, by omega⟩

variable {previous : Option UInt8} {offset : Nat} {b : UInt8} {tail rest : Octets} {kind : TokenKind}
  {last : Option Lexeme} {text : Octets} {lexemes : List Lexeme}

/-- The last octet of a token at the front of a text. -/
theorem getElem?_or_eq_getLast? :
    ((b :: (tail ++ rest))[tail.length + 1 - 1]?).or previous = (b :: tail).getLast? := by
  have inside : tail.length < (b :: tail).length := Nat.lt_succ_self _
  have last : (b :: tail).getLast? = (b :: tail)[tail.length]? := List.getLast?_eq_getElem?
  rw [Nat.add_sub_cancel, last, ← List.cons_append, List.getElem?_append_left inside,
    List.getElem?_eq_getElem inside]
  rfl

theorem scan_cons (read : Token.next previous b (tail ++ rest) = ⟨kind, tail.length + 1⟩) :
    scan previous offset (b :: (tail ++ rest)) =
      ⟨offset, kind, b :: tail⟩ :: scan (b :: tail).getLast? (offset + (tail.length + 1)) rest := by
  rw [scan]
  simp only [read, getElem?_or_eq_getLast?]
  simp

theorem scanned_scan (last : Option Lexeme) (offset : Nat) (text : Octets) :
    Scanned last offset text (scan (lastOctet last) offset text) := by
  match text with
  | [] =>
    rw [scan]
    exact .nil
  | b :: text =>
    obtain ⟨kind, tail, rest, split, read⟩ := exists_token (lastOctet last) b text
    have shorter : rest.length < (b :: text).length := by
      rw [split, List.length_cons, List.length_append]
      omega
    rw [split, scan_cons read]
    exact .cons read (scanned_scan (some ⟨offset, kind, b :: tail⟩) (offset + (tail.length + 1)) rest)
termination_by text.length

namespace Scanned

theorem flatMap_text (scanned : Scanned last offset text lexemes) : lexemes.flatMap Lexeme.text = text := by
  induction scanned with
  | nil => rfl
  | cons _ _ ih => simp [ih]

theorem offset_le (scanned : Scanned last offset text lexemes) : ∀ l ∈ lexemes, offset ≤ l.offset := by
  induction scanned with
  | nil => simp
  | cons _ _ ih =>
    intro l member
    rcases List.mem_cons.mp member with rfl | later
    · exact Nat.le_refl _
    · have := ih l later
      omega

theorem lt_stop (scanned : Scanned last offset text lexemes) : ∀ l ∈ lexemes, offset < l.stop := by
  induction scanned with
  | nil => simp
  | cons _ _ ih =>
    intro l member
    rcases List.mem_cons.mp member with rfl | later
    · simp [Lexeme.stop]
    · have := ih l later
      omega

theorem sorted (scanned : Scanned last offset text lexemes) :
    lexemes.Pairwise fun l r => l.stop ≤ r.offset := by
  induction scanned with
  | nil => exact .nil
  | cons _ inner ih =>
    refine .cons ?_ ih
    intro r member
    exact inner.offset_le r member

end Scanned

end Stripping

end SourceCoverage
