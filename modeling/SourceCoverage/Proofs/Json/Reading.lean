import SourceCoverage.Proofs.Json.Text

namespace SourceCoverage.Json

open Octets

/-- Values of plain numbers and escaped text. -/
inductive Written : Json → Prop
  | number (n : Nat) : Written (.ofNat n)
  | text (octets : Octets) : Written (.text (octets.flatMap escapeOctet))
  | array {items : List Json} : (∀ item ∈ items, Written item) → Written (.array items)
  | object {fields : List (Octets × Json)} :
      (∀ field ∈ fields, ∃ octets : Octets, field.1 = octets.flatMap escapeOctet) →
      (∀ field ∈ fields, Written field.2) → Written (.object fields)

theorem skipBlanks_append {blanks : Octets} (all : ∀ b ∈ blanks, isJsonBlank b = true) (text : Octets) :
    skipBlanks (blanks ++ text) = skipBlanks text :=
  List.dropWhile_append_of_pos all

theorem skipBlanks_cons {b : UInt8} (visible : isJsonBlank b = false) (text : Octets) :
    skipBlanks (b :: text) = b :: text := by
  simp [skipBlanks, visible]

theorem isJsonBlank_of_mem_lineStart {level : Nat} {b : UInt8} (member : b ∈ lineStart level) :
    isJsonBlank b = true := by
  rcases List.mem_cons.mp member with rfl | inside
  · decide
  · rw [List.eq_of_mem_replicate inside]
    decide

theorem readValue_blanks {blanks : Octets} (all : ∀ b ∈ blanks, isJsonBlank b = true) (steps : Nat) (text : Octets) :
    readValue steps (blanks ++ text) = readValue steps text := by
  cases steps with
  | zero => rfl
  | succ steps => rw [readValue, readValue, skipBlanks_append all]

theorem ne_of_isDigit {b c : UInt8} (digit : isDigit b = true) (other : isDigit c = false) : b ≠ c := by
  rintro rfl
  exact Bool.noConfusion (digit.symm.trans other)

theorem isJsonBlank_of_isDigit {b : UInt8} (digit : isDigit b = true) : isJsonBlank b = false := by
  simp [isJsonBlank, ne_of_isDigit digit (by decide : isDigit 32 = false),
    ne_of_isDigit digit (by decide : isDigit 9 = false), ne_of_isDigit digit (by decide : isDigit 10 = false),
    ne_of_isDigit digit (by decide : isDigit 13 = false)]

/-- The form of a value starts with an octet that is neither blank nor the end of an array. -/
theorem Written.pretty_eq_cons {json : Json} (written : Written json) (level : Nat) :
    ∃ b tail, pretty level json = b :: tail ∧ isJsonBlank b = false ∧ b ≠ ascii ']' := by
  cases written with
  | number n =>
    obtain ⟨nonempty, all, _, _⟩ := numeral_digits n
    obtain ⟨b, tail, split⟩ := List.exists_cons_of_ne_nil nonempty
    have digit : isDigit b = true := all b (by rw [split]; exact List.mem_cons_self)
    exact ⟨b, tail, by simpa [ofNat, pretty, numberText] using split, isJsonBlank_of_isDigit digit,
      ne_of_isDigit digit (by decide)⟩
  | text octets => exact ⟨ascii '"', _, by rw [pretty, quoted]; rfl, by decide, by decide⟩
  | array each => exact ⟨ascii '[', _, by rw [pretty]; rfl, by decide, by decide⟩
  | object names each => exact ⟨ascii '\x7b', _, by rw [pretty]; rfl, by decide, by decide⟩

/-- A value whose form is read back, whatever follows it. -/
def ReadsBack (json : Json) : Prop :=
  ∀ (level steps : Nat) (rest : Octets), (pretty level json).length ≤ steps → (∀ b ∈ rest.head?, EndsNumber b) →
    readValue steps (pretty level json ++ rest) = some (json, rest)

theorem endsNumber_comma : EndsNumber (ascii ',') := by unfold EndsNumber; decide

theorem endsNumber_newline : EndsNumber newline := by unfold EndsNumber; decide

theorem readItems_pretty {item : Json} {more : List Json} (each : ∀ json ∈ item :: more, ReadsBack json)
    {level steps : Nat} (items : List Json) (rest : Octets)
    (enough : (pretty (level + 1) item).length + (prettyItems (level + 1) [ascii ','] more).length < steps) :
    readItems steps items (lineStart (level + 1) ++ (pretty (level + 1) item ++
      (prettyItems (level + 1) [ascii ','] more ++ (lineStart level ++ ascii ']' :: rest)))) =
      some (.array (items.reverse ++ item :: more), rest) := by
  have blank : ∀ level, ∀ b ∈ lineStart level, isJsonBlank b = true := fun _ _ => isJsonBlank_of_mem_lineStart
  induction more generalizing item items steps with
  | nil =>
    obtain ⟨steps, rfl⟩ : ∃ n, steps = n + 1 := ⟨steps - 1, by omega⟩
    have stop : ∀ b ∈ (lineStart level ++ ascii ']' :: rest).head?, EndsNumber b := by
      rintro b ⟨⟩
      exact endsNumber_newline
    rw [readItems, prettyItems, List.nil_append, readValue_blanks (blank _),
      each item List.mem_cons_self _ _ _ (by omega) stop]
    have close : (ascii ']' == ascii ',') = false := by decide
    simp [skipBlanks_append (blank _), skipBlanks_cons (by decide : isJsonBlank (ascii ']') = false), close]
  | cons next more ih =>
    obtain ⟨steps, rfl⟩ : ∃ n, steps = n + 1 := ⟨steps - 1, by omega⟩
    simp only [prettyItems, List.length_append, List.length_cons, List.length_nil] at enough
    have stop : ∀ text : Octets, ∀ b ∈ (ascii ',' :: text).head?, EndsNumber b := by
      rintro text b ⟨⟩
      exact endsNumber_comma
    have rest' := ih (fun json member => each json (List.mem_cons_of_mem _ member)) (item :: items)
      (by omega : (pretty (level + 1) next).length + (prettyItems (level + 1) [ascii ','] more).length < steps)
    rw [readItems, prettyItems, readValue_blanks (blank _)]
    simp only [List.append_assoc, List.cons_append, List.nil_append]
    rw [each item List.mem_cons_self _ _ _ (by omega) (stop _)]
    simp only [skipBlanks_cons (by decide : isJsonBlank (ascii ',') = false), beq_self_eq_true, if_true]
    rw [rest', List.reverse_cons, List.append_assoc, List.singleton_append]

theorem readFields_pretty {field : Octets × Json} {more : List (Octets × Json)}
    (names : ∀ f ∈ field :: more, ∃ octets : Octets, f.1 = octets.flatMap escapeOctet)
    (each : ∀ f ∈ field :: more, ReadsBack f.2) {level steps : Nat} (fields : List (Octets × Json)) (rest : Octets)
    (enough : (pretty (level + 1) field.2).length + (prettyFields (level + 1) [ascii ','] more).length < steps) :
    readFields steps fields (lineStart (level + 1) ++ (quoted field.1 ++ (ascii ':' :: ascii ' ' ::
      (pretty (level + 1) field.2 ++ (prettyFields (level + 1) [ascii ','] more ++
        (lineStart level ++ ascii '\x7d' :: rest)))))) =
      some (.object (fields.reverse ++ field :: more), rest) := by
  have blank : ∀ level, ∀ b ∈ lineStart level, isJsonBlank b = true := fun _ _ => isJsonBlank_of_mem_lineStart
  -- The name and the colon, up to the value.
  have start (field : Octets × Json) (escaped : ∃ octets : Octets, field.1 = octets.flatMap escapeOctet)
      (text : Octets) : (after? [ascii '"'] (skipBlanks (lineStart (level + 1) ++ (quoted field.1 ++ (ascii ':' ::
        ascii ' ' :: text))))).bind (readText []) = some (field.1, ascii ':' :: ascii ' ' :: text) := by
    obtain ⟨octets, name⟩ := escaped
    rw [skipBlanks_append (blank _), quoted, List.append_assoc, List.cons_append,
      skipBlanks_cons (by decide : isJsonBlank (ascii '"') = false), name]
    simp [after?, readText_escaped]
  have value (steps : Nat) (text : Octets) : (after? [ascii ':'] (skipBlanks (ascii ':' :: ascii ' ' :: text))).bind
      (readValue steps) = readValue steps text := by
    rw [skipBlanks_cons (by decide : isJsonBlank (ascii ':') = false)]
    have skip : readValue steps ([ascii ' '] ++ text) = readValue steps text :=
      readValue_blanks (List.forall_mem_singleton.mpr (by decide)) steps text
    simpa [after?] using skip
  induction more generalizing field fields steps with
  | nil =>
    obtain ⟨steps, rfl⟩ : ∃ n, steps = n + 1 := ⟨steps - 1, by omega⟩
    have stop : ∀ b ∈ (lineStart level ++ ascii '\x7d' :: rest).head?, EndsNumber b := by
      rintro b ⟨⟩
      exact endsNumber_newline
    rw [readFields, start field (names field List.mem_cons_self)]
    simp only [value, prettyFields, List.nil_append]
    rw [each field List.mem_cons_self _ _ _ (by omega) stop]
    have close : (ascii '\x7d' == ascii ',') = false := by decide
    simp [skipBlanks_append (blank _), skipBlanks_cons (by decide : isJsonBlank (ascii '\x7d') = false), close]
  | cons next more ih =>
    obtain ⟨steps, rfl⟩ : ∃ n, steps = n + 1 := ⟨steps - 1, by omega⟩
    simp only [prettyFields, List.length_append, List.length_cons, List.length_nil] at enough
    have stop : ∀ text : Octets, ∀ b ∈ (ascii ',' :: text).head?, EndsNumber b := by
      rintro text b ⟨⟩
      exact endsNumber_comma
    have rest' := ih (fun f member => names f (List.mem_cons_of_mem _ member))
      (fun f member => each f (List.mem_cons_of_mem _ member)) (field :: fields)
      (by omega : (pretty (level + 1) next.2).length + (prettyFields (level + 1) [ascii ','] more).length < steps)
    rw [readFields, start field (names field List.mem_cons_self)]
    simp only [value, prettyFields, List.append_assoc, List.cons_append, List.nil_append]
    rw [each field List.mem_cons_self _ _ _ (by omega) (stop _)]
    simp only [skipBlanks_cons (by decide : isJsonBlank (ascii ',') = false), beq_self_eq_true, if_true]
    rw [rest', List.reverse_cons, List.append_assoc, List.singleton_append]

theorem readsBack_number (n : Nat) : ReadsBack (.ofNat n) := by
  intro level steps rest enough stop
  obtain ⟨nonempty, all, _, _⟩ := numeral_digits n
  obtain ⟨b, tail, split⟩ := List.exists_cons_of_ne_nil nonempty
  have text : pretty level (.ofNat n) = b :: tail := by simpa [ofNat, pretty, numberText] using split
  rw [text] at enough ⊢
  obtain ⟨steps, rfl⟩ : ∃ n, steps = n + 1 := ⟨steps - 1, by simp only [List.length_cons] at enough; omega⟩
  have digit : isDigit b = true := all b (by rw [split]; exact List.mem_cons_self)
  have noQuote := ne_of_isDigit digit (by decide : isDigit (ascii '"') = false)
  have noBracket := ne_of_isDigit digit (by decide : isDigit (ascii '[') = false)
  have noBrace := ne_of_isDigit digit (by decide : isDigit (ascii '\x7b') = false)
  have noMinus := ne_of_isDigit digit (by decide : isDigit (ascii '-') = false)
  have read := readNumber_digits n stop
  rw [split] at read
  rw [List.cons_append] at read ⊢
  rw [readValue, skipBlanks_cons (isJsonBlank_of_isDigit digit)]
  simp [noQuote, noBracket, noBrace, noMinus, digit, read, ofNat]

theorem readsBack_text (octets : Octets) : ReadsBack (.text (octets.flatMap escapeOctet)) := by
  intro level steps rest enough _
  rw [pretty, quoted] at enough ⊢
  obtain ⟨steps, rfl⟩ : ∃ n, steps = n + 1 :=
    ⟨steps - 1, by simp only [List.cons_append, List.length_cons] at enough; omega⟩
  rw [List.append_assoc, List.cons_append, readValue, skipBlanks_cons (by decide)]
  simp [readText_escaped]

theorem Written.readsBack {json : Json} (written : Written json) : ReadsBack json := by
  induction written with
  | number n => exact readsBack_number n
  | text octets => exact readsBack_text octets
  | @array items each ih =>
    intro level steps rest enough _
    have opens : (ascii '[' == ascii '"') = false := by decide
    cases items with
    | nil =>
      obtain ⟨steps, rfl⟩ : ∃ n, steps = n + 1 := ⟨steps - 1, by simp [pretty, prettyItems] at enough; omega⟩
      rw [readValue]
      simp [pretty, prettyItems, skipBlanks_cons (by decide : isJsonBlank (ascii '[') = false),
        skipBlanks_cons (by decide : isJsonBlank (ascii ']') = false), opens, after?]
    | cons item more =>
      simp only [pretty, prettyItems, List.isEmpty_cons, Bool.false_eq_true, if_false, List.nil_append,
        List.append_assoc, List.cons_append, List.length_cons, List.length_append] at enough ⊢
      obtain ⟨steps, rfl⟩ : ∃ n, steps = n + 1 := ⟨steps - 1, by omega⟩
      obtain ⟨b, tail, text, visible, noBracket⟩ := (each item List.mem_cons_self).pretty_eq_cons (level + 1)
      have read := readItems_pretty ih [] rest
        (by omega : (pretty (level + 1) item).length + (prettyItems (level + 1) [ascii ','] more).length < steps)
      have open' : after? [ascii ']'] (skipBlanks (lineStart (level + 1) ++ (pretty (level + 1) item ++
          (prettyItems (level + 1) [ascii ','] more ++ (lineStart level ++ ascii ']' :: rest))))) = none := by
        rw [skipBlanks_append fun _ => isJsonBlank_of_mem_lineStart, text, List.cons_append, skipBlanks_cons visible]
        simp [after?, noBracket.symm]
      rw [readValue, skipBlanks_cons (by decide)]
      simp [opens, open', read]
  | @object fields names each ih =>
    intro level steps rest enough _
    have opens : (ascii '\x7b' == ascii '"') = false := by decide
    have opens' : (ascii '\x7b' == ascii '[') = false := by decide
    cases fields with
    | nil =>
      obtain ⟨steps, rfl⟩ : ∃ n, steps = n + 1 := ⟨steps - 1, by simp [pretty, prettyFields] at enough; omega⟩
      rw [readValue]
      simp [pretty, prettyFields, skipBlanks_cons (by decide : isJsonBlank (ascii '\x7b') = false),
        skipBlanks_cons (by decide : isJsonBlank (ascii '\x7d') = false), opens, opens', after?]
    | cons field more =>
      simp only [pretty, prettyFields, List.isEmpty_cons, Bool.false_eq_true, if_false, List.nil_append,
        List.append_assoc, List.cons_append, List.length_cons, List.length_append] at enough ⊢
      obtain ⟨steps, rfl⟩ : ∃ n, steps = n + 1 := ⟨steps - 1, by omega⟩
      have read := readFields_pretty names ih [] rest
        (by omega : (pretty (level + 1) field.2).length + (prettyFields (level + 1) [ascii ','] more).length < steps)
      have open' : ∀ text : Octets, after? [ascii '\x7d'] (skipBlanks (lineStart (level + 1) ++
          (quoted field.1 ++ text))) = none := by
        intro text
        rw [skipBlanks_append fun _ => isJsonBlank_of_mem_lineStart, quoted, List.append_assoc, List.cons_append,
          skipBlanks_cons (by decide)]
        simp [after?, ascii]
      rw [readValue, skipBlanks_cons (by decide)]
      simp [opens, opens', open', read]

/-- A value is read back from its indented form. -/
theorem Written.read?_pretty {json : Json} (written : Written json) (level : Nat) :
    read? (pretty level json) = some json := by
  have read := written.readsBack level (2 * (pretty level json).length + 1) [] (by omega) (by simp)
  rw [List.append_nil] at read
  simp [read?, read, skipBlanks]

end SourceCoverage.Json
