namespace SourceCoverage

abbrev Octets := List UInt8

namespace Octets

/-- The octet of an ASCII character. -/
def ascii (c : Char) : UInt8 := c.toNat.toUInt8

def newline : UInt8 := 10

def isDigit (b : UInt8) : Bool := 48 ≤ b && b ≤ 57

def isLetter (b : UInt8) : Bool := (65 ≤ b && b ≤ 90) || (97 ≤ b && b ≤ 122)

def isAlphanumeric (b : UInt8) : Bool := isDigit b || isLetter b

/-- Blank, tab, line feed, form feed and carriage return. -/
def isBlank (b : UInt8) : Bool := b == 32 || b == 9 || b == 10 || b == 12 || b == 13

/-- What follows `head` in `text`, when `text` starts with it. -/
def after? : (head text : Octets) → Option Octets
  | [], text => some text
  | _ :: _, [] => none
  | h :: head, t :: text => if h == t then after? head text else none

def startsWith (head text : Octets) : Bool := (after? head text).isSome

/-- Where `pattern` first stands in a text whose first octet is counted as `index`. -/
def indexFrom? (pattern : Octets) (index : Nat) : Octets → Option Nat
  | [] => if pattern.isEmpty then some index else none
  | b :: text =>
    if startsWith pattern (b :: text) then some index else indexFrom? pattern (index + 1) text

/-- Number of octets before the first place where `pattern` stands. -/
def indexOf? (pattern text : Octets) : Option Nat := indexFrom? pattern 0 text

def hexDigit (n : Nat) : Char := Char.ofNat (if n < 10 then 48 + n else 87 + n)

/-- Two lowercase hexadecimal digits for each octet. -/
def hex (text : Octets) : String :=
  text.foldl (fun out b => (out.push (hexDigit (b.toNat / 16))).push (hexDigit (b.toNat % 16))) ""

theorem after?_append (head text : Octets) : after? head (head ++ text) = some text := by
  induction head with
  | nil => simp [after?]
  | cons h head ih => simp [after?, ih]

theorem eq_append_of_after? {head text rest : Octets} (found : after? head text = some rest) :
    text = head ++ rest := by
  induction head generalizing text with
  | nil => simpa [after?] using found
  | cons h head ih =>
    cases text with
    | nil => simp [after?] at found
    | cons t text =>
      by_cases same : h = t
      · subst same
        simp only [after?, beq_self_eq_true, if_true] at found
        rw [ih found, List.cons_append]
      · simp [after?, same] at found

end Octets

end SourceCoverage
