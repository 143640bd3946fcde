import SourceCoverage.Proofs.Instrumented.Part
import SourceCoverage.Proofs.Stripping.Call
import SourceCoverage.Proofs.Stripping.Scan

namespace SourceCoverage

open Octets Token Stripping

inductive Item where
  | lexeme (l : Lexeme)
  | part (p : Part)
deriving DecidableEq, Repr

def Item.text (probes : Probes) : Item → Octets
  | lexeme l => l.text
  | part p => p.text probes

def Item.source : Item → Octets
  | lexeme l => l.text
  | part _ => []

abbrev Arrangement := List Item

namespace Arrangement

def text (probes : Probes) (items : Arrangement) : Octets := items.flatMap (Item.text probes)

def source (items : Arrangement) : Octets := items.flatMap Item.source

@[simp] theorem text_lexeme (probes : Probes) (l : Lexeme) (items : Arrangement) :
    text probes (.lexeme l :: items) = l.text ++ text probes items := rfl

@[simp] theorem text_part (probes : Probes) (p : Part) (items : Arrangement) :
    text probes (.part p :: items) = p.text probes ++ text probes items := rfl

@[simp] theorem source_lexeme (l : Lexeme) (items : Arrangement) :
    source (.lexeme l :: items) = l.text ++ source items := rfl

@[simp] theorem source_part (p : Part) (items : Arrangement) : source (.part p :: items) = source items := rfl

end Arrangement

namespace Part

/-- Plain checkpoints and evaluations start with the name that they call. -/
def isCall : Part → Bool
  | checkpoint _ => true
  | opener m => !m.isCheckpoint
  | closer _ => false

variable {probes : Probes}

/-- The first octet of a part. -/
theorem head?_text (identifiers : probes.names.AreIdentifiers) (p : Part) :
    ∃ b, (p.text probes).head? = some b ∧ StartsProbe b ∧ isWordOctet b = p.isCall := by
  obtain ⟨c, ctail, checkpoint, cword, _⟩ := isName_encode identifiers.1
  obtain ⟨e, etail, evaluation, eword, _⟩ := isName_encode identifiers.2
  obtain ⟨behind, closes, _⟩ := probes.encode_evaluationClose
  have brace : Utf8.encode "\x7b " = [ascii '\x7b', ascii ' '] := by decide
  cases p with
  | checkpoint m =>
    refine ⟨c, ?_, Or.inr (Or.inr (Or.inr cword)), cword⟩
    rw [text, Probes.encode_checkpoint, checkpoint]
    rfl
  | opener m =>
    cases kind : m.kind with
    | checkpoint =>
      refine ⟨ascii '\x7b', ?_, Or.inr (Or.inr (Or.inl rfl)), ?_⟩
      · simp only [text, kind, Probes.encode_scopeOpen, brace]
        rfl
      · simp only [isCall, Marker.isCheckpoint, kind]
        decide
    | evaluation type =>
      refine ⟨e, ?_, Or.inr (Or.inr (Or.inr eword)), by simp [isCall, Marker.isCheckpoint, kind, eword]⟩
      simp only [text, kind, Probes.encode_evaluationOpen, evaluation]
      rfl
  | closer m =>
    cases kind : m.kind with
    | checkpoint =>
      refine ⟨ascii ' ', ?_, Or.inl rfl, rfl⟩
      simp only [text, kind, Probes.encode_scopeClose]
      rfl
    | evaluation type =>
      refine ⟨ascii ')', ?_, Or.inr (Or.inl rfl), rfl⟩
      simp only [text, kind, closes]
      rfl

/-- The last octet of a part belongs to no word. -/
theorem getLast?_text (probes : Probes) (p : Part) :
    ∃ b, (p.text probes).getLast? = some b ∧ isWordOctet b = false := by
  obtain ⟨behind, closes, last⟩ := probes.encode_evaluationClose
  have call (octets : Octets) (digits closing : Octets) (x : UInt8) (atLast : closing.getLast? = some x) :
      (octets ++ ascii '(' :: (digits ++ closing)).getLast? = some x := by
    rw [List.getLast?_append, List.getLast?_cons, List.getLast?_append, atLast]
    rfl
  cases p with
  | checkpoint m =>
    refine ⟨ascii ' ', ?_, by decide⟩
    rw [text, Probes.encode_checkpoint]
    exact call _ _ _ _ (by decide)
  | opener m =>
    cases kind : m.kind with
    | checkpoint =>
      refine ⟨ascii ' ', ?_, by decide⟩
      simp only [text, kind, Probes.encode_scopeOpen]
      rw [List.getLast?_append, call _ _ _ (ascii ' ') (by decide)]
      rfl
    | evaluation type =>
      refine ⟨ascii '(', ?_, by decide⟩
      simp only [text, kind, Probes.encode_evaluationOpen]
      exact call _ _ _ _ (by decide)
  | closer m =>
    cases kind : m.kind with
    | checkpoint =>
      refine ⟨ascii '\x7d', ?_, by decide⟩
      simp only [text, kind, Probes.encode_scopeClose]
      rfl
    | evaluation type =>
      refine ⟨ascii ')', ?_, by decide⟩
      simp only [text, kind, closes, last]

end Part

/-- A lexeme directly before a part is not extended by it. -/
structure Lexeme.Admits (l : Lexeme) (p : Part) : Prop where
  inText : l.kind ≠ .lineComment
  closed : l.isClosed = true
  apart : p.isCall = true → l.kind ≠ .word ∧ l.kind ≠ .number

instance (l : Lexeme) (p : Part) : Decidable (l.Admits p) :=
  decidable_of_iff (l.kind ≠ .lineComment ∧ l.isClosed = true ∧
      (p.isCall = true → l.kind ≠ .word ∧ l.kind ≠ .number))
    ⟨fun ⟨inText, closed, apart⟩ => ⟨inText, closed, apart⟩, fun ⟨inText, closed, apart⟩ => ⟨inText, closed, apart⟩⟩

/-- Lexemes that the stripper reads from the source behind the lexeme `last`, with parts where they change
no lexeme. No word of the source is the name of a probe. -/
inductive Arranged (names : ProbeNames) : Option Lexeme → Arrangement → Prop
  | nil {last : Option Lexeme} : Arranged names last []
  | lexeme {last : Option Lexeme} {offset : Nat} {kind : TokenKind} {b : UInt8} {tail : Octets}
      {items : Arrangement} :
      Token.next (lastOctet last) b (tail ++ items.source) = ⟨kind, tail.length + 1⟩ →
      (kind = .word → b :: tail ≠ Utf8.encode names.checkpoint ∧ b :: tail ≠ Utf8.encode names.evaluation) →
      Arranged names (some ⟨offset, kind, b :: tail⟩) items →
      Arranged names last (.lexeme ⟨offset, kind, b :: tail⟩ :: items)
  | part {last : Option Lexeme} {p : Part} {items : Arrangement} :
      (∀ l, last = some l → l.Admits p) →
      ¬ (lastOctet last = some (ascii 'R') ∧ items.source.head? = some (ascii '"')) →
      Arranged names last items → Arranged names last (.part p :: items)

namespace Arranged

variable {probes : Probes} {last : Option Lexeme} {offset : Nat} {kind : TokenKind} {b : UInt8} {tail : Octets}
  {items : Arrangement}

/-- A quote that is a lexeme by itself is not closed. -/
theorem not_isClosed_quote {previous : Option UInt8} {rest : Octets}
    (read : Token.next previous (ascii '\x27') rest = ⟨kind, 1⟩) :
    (Lexeme.mk offset kind [ascii '\x27']).isClosed = false := by
  have quoted : Token.next previous (ascii '\x27') rest = quotedToken (ascii '\x27') (ascii '\x27' :: rest) := by
    simp [Token.next, ascii]
  rw [quoted] at read
  obtain ⟨rfl, _⟩ := Token.mk.inj read
  rfl

/-- Where a lexeme comes next, the instrumented text starts as the source does. -/
theorem sameStart (arranged : Arranged probes.names last (.lexeme ⟨offset, kind, b :: tail⟩ :: items)) :
    SameStart (Arrangement.source (.lexeme ⟨offset, kind, b :: tail⟩ :: items))
      (Arrangement.text probes (.lexeme ⟨offset, kind, b :: tail⟩ :: items)) := by
  refine ⟨rfl, ?_⟩
  intro quote
  obtain rfl : b = ascii '\x27' := by simpa using quote
  cases tail with
  | cons c tail => rfl
  | nil =>
    cases arranged with
    | lexeme read _ arranged =>
      cases arranged with
      | nil => rfl
      | lexeme _ _ _ => rfl
      | part admits _ _ =>
        have closed := (admits _ rfl).closed
        rw [not_isClosed_quote read] at closed
        cases closed

/-- What stands behind a lexeme in the instrumented text does not extend it. -/
theorem follows (identifiers : probes.names.AreIdentifiers) {l : Lexeme}
    (arranged : Arranged probes.names (some l) items) : Follows l items.source (items.text probes) := by
  cases arranged with
  | nil => exact Or.inl ⟨rfl, fun _ => rfl⟩
  | lexeme read word inner => exact Or.inl (sameStart (.lexeme read word inner))
  | @part _ p rest admits _ inner =>
    obtain ⟨b, first, starts, apart⟩ := Part.head?_text identifiers p
    have admitted := admits l rfl
    refine Or.inr ⟨admitted.inText, admitted.closed, b, ?_, starts, ?_⟩
    · simp [first]
    · intro word
      rw [apart]
      cases call : p.isCall with
      | false => rfl
      | true =>
        obtain ⟨notWord, notNumber⟩ := admitted.apart call
        exact (word.elim notWord notNumber).elim

/-- A lexeme of the source is read from the instrumented text as well. -/
theorem read (identifiers : probes.names.AreIdentifiers)
    (arranged : Arranged probes.names last (.lexeme ⟨offset, kind, b :: tail⟩ :: items)) {previous : Option UInt8}
    (raw : b = ascii '"' → (lastOctet last = some (ascii 'R') ↔ previous = some (ascii 'R')))
    (start : isDigit b = true → atWordStart (lastOctet last) = atWordStart previous) :
    Token.next previous b (tail ++ items.text probes) = ⟨kind, tail.length + 1⟩ := by
  cases arranged with
  | lexeme read _ inner => exact next_append read (inner.follows identifiers) raw start

/-- No lexeme of the source starts a call. -/
theorem callAt?_eq_none (identifiers : probes.names.AreIdentifiers)
    (arranged : Arranged probes.names last (.lexeme ⟨offset, kind, b :: tail⟩ :: items)) {name : String}
    (isProbe : name = probes.names.checkpoint ∨ name = probes.names.evaluation) (after : String) :
    Probes.callAt? name after (b :: (tail ++ items.text probes)) = none := by
  have isName : IsName (Utf8.encode name) := by
    rcases isProbe with rfl | rfl
    · exact isName_encode identifiers.1
    · exact isName_encode identifiers.2
  by_cases letter : isWordOctet b = true ∧ isDigit b = false
  · have quote : b ≠ ascii '"' := by
      rintro rfl
      simp [isWordOctet, isAlphanumeric, isDigit, isLetter, ascii] at letter
    have reading : Token.next (lastOctet last) b (tail ++ items.text probes) = ⟨kind, tail.length + 1⟩ :=
      arranged.read identifiers (fun same => absurd same quote) (fun digit => by simp [letter.2] at digit)
    obtain ⟨rfl, octets⟩ := word_of_next letter.1 letter.2 reading
    refine Probes.callAt?_eq_none_of_word isName ?_
    rw [octets]
    cases arranged with
    | lexeme _ word _ =>
      rcases isProbe with rfl | rfl
      · exact (word rfl).1
      · exact (word rfl).2
  · refine Probes.callAt?_eq_none_of_head isName ?_
    intro c first
    obtain rfl : b = c := by simpa using first
    by_cases word : isWordOctet b = true
    · exact Or.inr (by simpa [word] using letter)
    · exact Or.inl (by simpa using word)

end Arranged

end SourceCoverage
