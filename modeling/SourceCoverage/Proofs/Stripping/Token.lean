import SourceCoverage.Proofs.Octets
import SourceCoverage.Stripping

namespace SourceCoverage

open Octets Token

/-- A token with its text, which starts at `offset`. -/
structure Lexeme where
  offset : Nat
  kind : TokenKind
  text : Octets
deriving DecidableEq, Repr

def Lexeme.stop (l : Lexeme) : Nat := l.offset + l.text.length

/-- The rest of a literal after its opening quote comes to a closing one. -/
def closesQuoted (quote : UInt8) : Octets → Bool
  | [] => false
  | [b] => b == quote
  | b :: c :: rest =>
    if b == ascii '\\' then closesQuoted quote rest
    else if b == newline then false
    else if b == quote then true
    else closesQuoted quote (c :: rest)

/-- A raw string, from its opening quote on, comes to its terminator. -/
def closesRaw (text : Octets) : Bool :=
  let opening := text.takeWhile (· != ascii '(')
  (indexOf? (ascii ')' :: opening.drop 1 ++ [ascii '"']) (text.drop opening.length)).isSome

/-- Comments and literals that are not closed reach to the end of the text or of the line. -/
def Lexeme.isClosed (l : Lexeme) : Bool :=
  match l.kind, l.text with
  | .blockComment, text => (indexOf? [ascii '*', ascii '/'] (text.drop 2)).isSome
  | .rawString, text => closesRaw text
  | .quoted, quote :: rest => closesQuoted quote rest
  | _, _ => true

namespace Token

/-- What can stand behind a token without changing it, given what stood there: the same octet, or the
first octet of a probe. A quote that follows a number is looked at together with the octet after it. -/
def SameStart (rest rest' : Octets) : Prop :=
  rest.head? = rest'.head? ∧ (rest.head? = some (ascii '\x27') → rest[1]? = rest'[1]?)

theorem le_quotedTail (quote : UInt8) (count : Nat) (text : Octets) : count ≤ quotedTail quote count text := by
  fun_induction quotedTail quote count text <;> omega

theorem quotedTail_le (quote : UInt8) (count : Nat) (text : Octets) :
    quotedTail quote count text ≤ count + text.length := by
  fun_induction quotedTail quote count text <;> simp only [List.length_cons, List.length_nil] at * <;> omega

/-- A literal ends at once only before a newline or at the end of the text. -/
theorem head?_of_quotedTail {quote : UInt8} {count : Nat} {text : Octets}
    (ends : quotedTail quote count text = count) : text.head? = none ∨ text.head? = some newline := by
  match text with
  | [] => exact Or.inl rfl
  | [b] =>
    unfold quotedTail at ends
    split at ends
    · rename_i same
      exact Or.inr (by simpa using same)
    · omega
  | b :: c :: rest =>
    unfold quotedTail at ends
    split at ends
    · have := le_quotedTail quote (count + 2) rest
      omega
    · split at ends
      · rename_i same
        exact Or.inr (by simpa using same)
      · split at ends
        · omega
        · have := le_quotedTail quote (count + 1) (c :: rest)
          omega

theorem quotedTail_of_head? {quote : UInt8} {count : Nat} {text : Octets}
    (ends : text.head? = none ∨ text.head? = some newline) : quotedTail quote count text = count := by
  have backslash : (newline == ascii '\\') = false := by decide
  match text with
  | [] => rfl
  | [b] =>
    obtain rfl : b = newline := by simpa using ends
    simp [quotedTail]
  | b :: c :: rest =>
    obtain rfl : b = newline := by simpa using ends
    simp [quotedTail, backslash]

theorem quotedTail_cons {quote x : UInt8} (plain : x ≠ ascii '\\') (inLine : x ≠ newline) (count : Nat)
    (rest : Octets) : quotedTail quote count (x :: rest) =
      if x == quote then count + 1 else quotedTail quote (count + 1) rest := by
  cases rest with
  | nil => simp [quotedTail, inLine]
  | cons c rest => simp [quotedTail, plain, inLine]

/-- A literal keeps its length if it is closed, or if what follows starts as before. -/
theorem quotedTail_append {quote : UInt8} (plain : quote ≠ ascii '\\') (text : Octets) {count : Nat}
    {rest rest' : Octets} (length : quotedTail quote count (text ++ rest) = count + text.length)
    (follows : closesQuoted quote text = true ∨ rest.head? = rest'.head?) :
    quotedTail quote count (text ++ rest') = count + text.length := by
  match text with
  | [] =>
    have ends := head?_of_quotedTail length
    rcases follows with closed | same
    · simp [closesQuoted] at closed
    · exact quotedTail_of_head? (same ▸ ends)
  | [x] =>
    simp only [List.singleton_append, List.length_singleton, closesQuoted, beq_iff_eq] at length follows ⊢
    have inLine : x ≠ newline := by
      rintro rfl
      rw [quotedTail_of_head? (Or.inr rfl)] at length
      omega
    by_cases escape : x = ascii '\\'
    · -- A backslash that takes nothing with it is the last octet of the text.
      have last : rest = [] := by
        cases rest with
        | nil => rfl
        | cons c rest =>
          have := le_quotedTail quote (count + 2) rest
          simp only [quotedTail, escape, beq_self_eq_true, if_true] at length
          omega
      have same : rest.head? = rest'.head? := follows.resolve_left (fun closed => plain (closed ▸ escape))
      have last' : rest' = [] := List.head?_eq_none_iff.mp (by rw [← same, last]; rfl)
      rw [last'] at *
      rw [← last]
      exact length
    · rw [quotedTail_cons escape inLine] at length ⊢
      split at length
      · rename_i closed
        rw [if_pos closed]
      · rename_i open'
        rw [if_neg open']
        have same : rest.head? = rest'.head? := follows.resolve_left (by simpa using open')
        exact quotedTail_of_head? (same ▸ head?_of_quotedTail length)
  | x :: y :: text =>
    have bounded := quotedTail_le quote
    simp only [List.cons_append, List.length_cons, quotedTail, closesQuoted] at length follows ⊢
    split at length
    · rename_i escape
      rw [if_pos escape] at follows ⊢
      have inner := quotedTail_append plain text (length.trans (by omega)) follows
      omega
    · rename_i unescaped
      rw [if_neg unescaped] at follows ⊢
      split at length
      · omega
      · rename_i inLine
        rw [if_neg inLine] at follows ⊢
        split at length
        · omega
        · rename_i open'
          rw [if_neg open'] at follows ⊢
          have inner := quotedTail_append plain (y :: text)
            (length.trans (by simp only [List.length_cons]; omega)) follows
          simp only [List.length_cons, List.cons_append] at inner
          omega

theorem quote_mem_of_closesQuoted {quote : UInt8} {text : Octets} (closed : closesQuoted quote text = true) :
    quote ∈ text := by
  fun_induction closesQuoted quote text with
  | case1 => simp at closed
  | case2 b => simp_all
  | case3 b c rest escape ih => simp [ih closed]
  | case4 => simp at closed
  | case5 b c rest _ _ same => simp_all
  | case6 b c rest _ _ _ ih =>
    have inner := ih closed
    exact List.mem_cons_of_mem _ inner

/-- The opening of a raw string when its bracket stands inside the text. -/
theorem takeWhile_of_mem {b : UInt8} {text : Octets} (member : b ∈ text) (rest : Octets) :
    (text ++ rest).takeWhile (· != b) = text.takeWhile (· != b) := by
  induction text with
  | nil => simp at member
  | cons t text ih =>
    by_cases same : t = b
    · simp [same]
    · have later : b ∈ text := (List.mem_cons.mp member).resolve_left (fun equal => same equal.symm)
      simp [same, ih later]

theorem takeWhile_of_notMem {b : UInt8} {text : Octets} (missing : b ∉ text) (rest : Octets) :
    (text ++ rest).takeWhile (· != b) = text ++ rest.takeWhile (· != b) := by
  apply List.takeWhile_append_of_pos
  intro x member
  simp only [bne_iff_ne, ne_eq]
  rintro rfl
  exact missing member

theorem length_takeWhile_lt {b : UInt8} {text : Octets} (member : b ∈ text) :
    (text.takeWhile (· != b)).length < text.length := by
  induction text with
  | nil => simp at member
  | cons t text ih =>
    by_cases same : t = b
    · simp [same]
    · have later : b ∈ text := (List.mem_cons.mp member).resolve_left (fun equal => same equal.symm)
      have inner := ih later
      simp [same]
      omega

theorem bracket_mem_of_rawStringLength? {text rest : Octets}
    (length : rawStringLength? (text ++ rest) = some text.length) : ascii '(' ∈ text := by
  by_contra missing
  have opening := takeWhile_of_notMem missing rest
  simp only [rawStringLength?, opening] at length
  split at length
  · simp at length
  · rename_i whole
    split at length
    · simp at length
    · split at length
      · simp only [Option.some.injEq, List.length_append, List.length_cons] at length
        omega
      · simp only [Option.some.injEq, List.length_append] at length
        have last : rest = [] := List.length_eq_zero_iff.mp (by omega)
        simp [last] at whole

/-- With the bracket inside the text, what follows matters only to the search for the terminator. -/
theorem rawStringLength?_of_mem {text : Octets} (bracket : ascii '(' ∈ text) (rest : Octets) :
    rawStringLength? (text ++ rest) =
      let opening := text.takeWhile (· != ascii '(')
      let terminator := ascii ')' :: opening.drop 1 ++ [ascii '"']
      if (opening.drop 1).length > 16 || (opening.drop 1).any fun b => isBlank b || b == ascii '"' then none
      else some (((indexOf? terminator (text.drop opening.length ++ rest)).map
        (opening.length + · + terminator.length)).getD (text ++ rest).length) := by
  have before := length_takeWhile_lt bracket
  have unequal : ((text.takeWhile (· != ascii '(')).length == (text ++ rest).length) = false := by
    rw [beq_eq_false_iff_ne, List.length_append]
    omega
  simp only [rawStringLength?, takeWhile_of_mem bracket, List.drop_append_of_le_length before.le, unequal,
    Bool.false_eq_true, if_false]
  cases indexOf? (ascii ')' :: (text.takeWhile (· != ascii '(')).drop 1 ++ [ascii '"'])
    (text.drop (text.takeWhile (· != ascii '(')).length ++ rest) <;> rfl

/-- A raw string ends with its terminator or with the text. -/
theorem ends_of_rawStringLength? {text rest : Octets}
    (length : rawStringLength? (text ++ rest) = some text.length) : closesRaw text = true ∨ rest = [] := by
  have bracket := bracket_mem_of_rawStringLength? length
  have before := length_takeWhile_lt bracket
  rw [rawStringLength?_of_mem bracket] at length
  simp only at length
  split at length
  · simp at length
  · cases found : indexOf? (ascii ')' :: (text.takeWhile (· != ascii '(')).drop 1 ++ [ascii '"'])
      (text.drop (text.takeWhile (· != ascii '(')).length ++ rest) with
    | some inner =>
      simp only [found, Option.map_some, Option.getD_some, Option.some.injEq] at length
      have alone := indexOf?_append rest [] found (by rw [List.length_drop]; omega) (by simp)
      rw [List.append_nil] at alone
      exact Or.inl (by simp only [closesRaw, alone]; rfl)
    | none =>
      simp only [found, Option.map_none, Option.getD_none, Option.some.injEq, List.length_append] at length
      exact Or.inr (List.length_eq_zero_iff.mp (by omega))

/-- A raw string keeps its length if it is closed, or if what follows starts as before. -/
theorem rawStringLength?_append {text rest rest' : Octets}
    (length : rawStringLength? (text ++ rest) = some text.length)
    (follows : closesRaw text = true ∨ rest.head? = rest'.head?) :
    rawStringLength? (text ++ rest') = some text.length := by
  by_cases closed : closesRaw text = true
  · have bracket := bracket_mem_of_rawStringLength? length
    have before := length_takeWhile_lt bracket
    obtain ⟨inner, found⟩ := Option.isSome_iff_exists.mp closed
    rw [← List.append_nil (text.drop _)] at found
    have bounds := indexFrom?_bounds found
    simp only [List.append_nil] at bounds
    rw [rawStringLength?_of_mem bracket] at length ⊢
    simp only [indexOf?_append [] _ found (by simpa using bounds.2) (by simp)] at length ⊢
    exact length
  · have last := (ends_of_rawStringLength? length).resolve_left closed
    have last' : rest' = [] := by
      rw [← List.head?_eq_none_iff, ← follows.resolve_left closed, last]
      rfl
    rw [last']
    rwa [last] at length

/-- What is no raw string is none with other text behind it, if a quote of its own or the end of the
line cuts a delimiter short. -/
theorem rawStringLength?_append_none {quote : UInt8} {text rest rest' : Octets}
    (absent : rawStringLength? (quote :: text ++ rest) = none)
    (follows : ascii '"' ∈ text ∨ rest'.head? = none ∨ rest'.head? = some newline) :
    rawStringLength? (quote :: text ++ rest') = none := by
  by_cases bracket : ascii '(' ∈ quote :: text
  · rw [rawStringLength?_of_mem bracket] at absent ⊢
    simp only at absent ⊢
    split at absent
    · rename_i delimiter
      rw [if_pos delimiter]
    · simp at absent
  · have opening := takeWhile_of_notMem bracket rest'
    simp only [rawStringLength?, opening]
    split
    · rfl
    · rename_i unequal
      rw [if_pos]
      rw [Bool.or_eq_true, List.any_eq_true]
      right
      rcases follows with quoted | last | line
      · exact ⟨ascii '"', by simp [quoted], by simp⟩
      · rw [List.head?_eq_none_iff.mp last] at unequal
        simp at unequal
      · cases rest' with
        | nil => simp at line
        | cons b rest' =>
          obtain rfl : b = newline := by simpa using line
          have open' : (newline != ascii '(') = true := by decide
          refine ⟨newline, by simp [open'], by decide⟩

theorem le_numberTail (previous : UInt8) (count : Nat) (text : Octets) : count ≤ numberTail previous count text := by
  induction text generalizing previous count with
  | nil => rfl
  | cons b text ih =>
    simp only [numberTail]
    have inner := ih b (count + 1)
    split <;> omega

theorem numberTail_le (previous : UInt8) (count : Nat) (text : Octets) :
    numberTail previous count text ≤ count + text.length := by
  induction text generalizing previous count with
  | nil => rfl
  | cons b text ih =>
    simp only [numberTail]
    have inner := ih b (count + 1)
    simp only [List.length_cons]
    split <;> omega

/-- A number that ends at once does not go on with a word octet. -/
theorem not_isWordOctet_of_numberTail {previous : UInt8} {count : Nat} {text : Octets}
    (ends : numberTail previous count text = count) {b : UInt8} (first : text.head? = some b) :
    isWordOctet b = false := by
  cases text with
  | nil => simp at first
  | cons c text =>
    obtain rfl : c = b := by simpa using first
    simp only [numberTail] at ends
    split at ends
    · have := le_numberTail c (count + 1) text
      omega
    · rename_i refused
      simp only [Bool.or_eq_true, not_or] at refused
      simpa using refused.1.1.1

/-- Behind a number stands no word octet. -/
theorem not_isWordOctet_of_number {previous : UInt8} {count : Nat} (text : Octets) {rest : Octets}
    (length : numberTail previous count (text ++ rest) = count + text.length) {b : UInt8}
    (first : rest.head? = some b) : isWordOctet b = false := by
  induction text generalizing previous count with
  | nil => exact not_isWordOctet_of_numberTail length first
  | cons c text ih =>
    simp only [List.cons_append, numberTail, List.length_cons] at length
    split at length
    · exact ih (length.trans (by omega))
    · omega

theorem numberTail_of_sameStart {previous : UInt8} {count count' : Nat} {rest rest' : Octets}
    (ends : numberTail previous count rest = count) (same : SameStart rest rest') :
    numberTail previous count' rest' = count' := by
  obtain ⟨heads, seconds⟩ := same
  cases rest with
  | nil =>
    rw [List.head?_eq_none_iff.mp heads.symm]
    rfl
  | cons b rest =>
    cases rest' with
    | nil => simp at heads
    | cons b' rest' =>
      obtain rfl : b = b' := by simpa using heads
      simp only [numberTail] at ends ⊢
      split at ends
      · have := le_numberTail b (count + 1) rest
        omega
      · rename_i refused
        rw [if_neg]
        simp only [Bool.or_eq_true, not_or] at refused ⊢
        refine ⟨⟨refused.1.1, ?_⟩, refused.2⟩
        by_cases quote : b = ascii '\x27'
        · have second : rest.head? = rest'.head? := by
            simpa [List.head?_eq_getElem?] using seconds (by rw [quote]; rfl)
          rw [← second]
          exact refused.1.2
        · simp [quote]

/-- A number keeps its length if it also ends before the other text. -/
theorem numberTail_append {previous : UInt8} {count : Nat} (text : Octets) {rest rest' : Octets}
    (length : numberTail previous count (text ++ rest) = count + text.length)
    (ends : ∀ last, (previous :: text).getLast? = some last →
      (∀ n, numberTail last n rest = n) → ∀ n, numberTail last n rest' = n) :
    numberTail previous count (text ++ rest') = count + text.length := by
  induction text generalizing previous count with
  | nil =>
    simp only [List.nil_append, List.length_nil, Nat.add_zero] at length ⊢
    refine ends previous rfl ?_ count
    intro n
    exact numberTail_of_sameStart length ⟨rfl, fun _ => rfl⟩
  | cons b text ih =>
    simp only [List.cons_append, List.length_cons] at length ⊢
    have bound := le_numberTail b (count + 1) (text ++ rest)
    simp only [numberTail] at length ⊢
    split at length
    · rename_i accepted
      have inner := ih (length.trans (by omega)) (fun last atLast => ends last (by simpa using atLast))
      have accepted' : (isWordOctet b || b == ascii '.' ||
          (b == ascii '\x27' && (text ++ rest').head?.any isAlphanumeric) ||
          ((b == ascii '+' || b == ascii '-') && isExponentMark previous)) = true := by
        cases text with
        | cons c text => exact accepted
        | nil =>
          -- A separator is followed by an octet that belongs to the number as well.
          simp only [Bool.or_eq_true] at accepted ⊢
          rcases accepted with (accepted | separates) | signs
          · exact Or.inl (Or.inl accepted)
          · exfalso
            have stops : numberTail b (count + 1) rest = count + 1 := by simpa using length
            simp only [List.nil_append, Bool.and_eq_true] at separates
            cases rest with
            | nil => simp at separates
            | cons c rest =>
              have refused := not_isWordOctet_of_numberTail stops rfl
              have digit : isAlphanumeric c = true := by simpa using separates.2
              simp [isWordOctet, digit] at refused
          · exact Or.inr signs
      rw [if_pos accepted', inner]
      omega
    · omega

/-- A block comment keeps its length if it is closed, or if what follows starts as before. -/
theorem blockCommentLength_append {first second : UInt8} {text rest rest' : Octets}
    (length : blockCommentLength (first :: second :: text ++ rest) = text.length + 2)
    (follows : (indexOf? [ascii '*', ascii '/'] text).isSome = true ∨ rest.head? = rest'.head?) :
    blockCommentLength (first :: second :: text ++ rest') = text.length + 2 := by
  simp only [blockCommentLength, List.cons_append, List.drop_succ_cons, List.drop_zero] at length ⊢
  cases found : indexOf? [ascii '*', ascii '/'] (text ++ rest) with
  | some inner =>
    rw [found] at length
    simp only at length
    rw [indexOf?_append rest rest' found (by simp; omega) (by simp)]
    exact length
  | none =>
    rw [found] at length
    simp only [List.length_cons, List.length_append] at length
    have last : rest = [] := List.length_eq_zero_iff.mp (by omega)
    rw [last, List.append_nil] at found
    have same : rest.head? = rest'.head? := follows.resolve_left (by simp [found])
    have last' : rest' = [] := List.head?_eq_none_iff.mp (by rw [← same, last]; rfl)
    rw [last', List.append_nil, found]
    simp

/-- Octets with which an inserted text can start. -/
def StartsProbe (b : UInt8) : Prop :=
  b = ascii ' ' ∨ b = ascii ')' ∨ b = ascii '\x7b' ∨ isWordOctet b = true

/-- Behind a token stands what stood there before, or an inserted text that does not extend it. -/
def Follows (l : Lexeme) (rest rest' : Octets) : Prop :=
  SameStart rest rest' ∨ (l.kind ≠ .lineComment ∧ l.isClosed = true ∧ ∃ b, rest'.head? = some b ∧
    StartsProbe b ∧ (l.kind = .word ∨ l.kind = .number → isWordOctet b = false))

theorem StartsProbe.ne_slash {b : UInt8} (starts : StartsProbe b) : b ≠ ascii '/' ∧ b ≠ ascii '*' := by
  rcases starts with rfl | rfl | rfl | word
  · decide
  · decide
  · decide
  · constructor <;> rintro rfl <;> simp [isWordOctet, isAlphanumeric, isDigit, isLetter, ascii] at word

theorem numberTail_of_startsProbe {last : UInt8} {count : Nat} {text : Octets} {b : UInt8}
    (first : text.head? = some b) (starts : StartsProbe b) (apart : isWordOctet b = false) :
    numberTail last count text = count := by
  cases text with
  | nil => rfl
  | cons c text =>
    obtain rfl : c = b := by simpa using first
    have refused : (c == ascii '.') = false ∧ (c == ascii '\x27') = false ∧ (c == ascii '+') = false ∧
        (c == ascii '-') = false := by
      rcases starts with rfl | rfl | rfl | word
      · decide
      · decide
      · decide
      · simp [word] at apart
    simp only [numberTail, apart, refused, Bool.false_or, Bool.false_and, Bool.false_eq_true, if_false]

variable {previous previous' : Option UInt8} {b : UInt8} {tail rest rest' : Octets} {kind : TokenKind}
  {offset : Nat}

theorem Follows.head? (follows : Follows ⟨offset, kind, b :: tail⟩ rest rest') :
    (Lexeme.mk offset kind (b :: tail)).isClosed = true ∨ rest.head? = rest'.head? := by
  rcases follows with same | ⟨_, closed, _⟩
  · exact Or.inr same.1
  · exact Or.inl closed

/-- Whether a slash starts a comment is not changed by what is inserted behind the token. -/
theorem Follows.slash (follows : Follows ⟨offset, kind, b :: tail⟩ rest rest') {c : UInt8}
    (comment : c = ascii '/' ∨ c = ascii '*') (apart : (tail ++ rest).head? ≠ some c) :
    (tail ++ rest').head? ≠ some c := by
  cases tail with
  | cons t tail => exact apart
  | nil =>
    simp only [List.nil_append] at apart ⊢
    rcases follows with same | ⟨_, _, x, first, starts, _⟩
    · exact same.1 ▸ apart
    · rw [first]
      rintro ⟨⟩
      rcases comment with rfl | rfl
      · exact starts.ne_slash.1 rfl
      · exact starts.ne_slash.2 rfl

/-- A line comment keeps its second slash and its length if what follows starts as before. -/
theorem lineComment_append (comment : (b == ascii '/' && (tail ++ rest).head? == some (ascii '/')) = true)
    (length : lineLength (b :: (tail ++ rest)) = tail.length + 1) (same : SameStart rest rest') :
    (b == ascii '/' && (tail ++ rest').head? == some (ascii '/')) = true ∧
      lineLength (b :: (tail ++ rest')) = tail.length + 1 := by
  constructor
  · cases tail with
    | cons t tail => exact comment
    | nil => simpa [← same.1] using comment
  · unfold lineLength at *
    have found : ((b :: tail ++ rest).takeWhile (· != newline)).length = (b :: tail).length := by
      simpa using length
    obtain ⟨all, stop⟩ := stop_of_length_takeWhile found
    have kept := takeWhile_append_of_stop all (fun x first => stop x (same.1.trans first))
    rw [← List.cons_append, kept]
    rfl

theorem word_append (length : ((b :: (tail ++ rest)).takeWhile isWordOctet).length = tail.length + 1)
    (follows : Follows ⟨offset, .word, b :: tail⟩ rest rest') :
    ((b :: (tail ++ rest')).takeWhile isWordOctet).length = tail.length + 1 := by
  have found : ((b :: tail ++ rest).takeWhile isWordOctet).length = (b :: tail).length := by simpa using length
  obtain ⟨all, stop⟩ := stop_of_length_takeWhile found
  have stop' : ∀ x, rest'.head? = some x → isWordOctet x = false := by
    intro x first
    rcases follows with same | ⟨_, _, y, first', _, apart⟩
    · exact stop x (same.1.trans first)
    · obtain rfl : x = y := by simpa [first] using first'
      exact apart (Or.inl rfl)
  rw [← List.cons_append, takeWhile_append_of_stop all stop']
  rfl

theorem number_append (length : numberTail b 1 (tail ++ rest) = tail.length + 1)
    (follows : Follows ⟨offset, .number, b :: tail⟩ rest rest') :
    numberTail b 1 (tail ++ rest') = tail.length + 1 := by
  have kept : numberTail b 1 (tail ++ rest') = 1 + tail.length := by
    refine numberTail_append tail (length.trans (Nat.add_comm _ _)) ?_
    intro last _ ends n
    rcases follows with same | ⟨_, _, x, first, starts, apart⟩
    · exact numberTail_of_sameStart (ends n) same
    · exact numberTail_of_startsProbe first starts (apart (Or.inr rfl))
  exact kept.trans (Nat.add_comm _ _)

theorem quoted_append (quote : b = ascii '"' ∨ b = ascii '\x27')
    (length : quotedTail b 1 (tail ++ rest) = tail.length + 1)
    (follows : Follows ⟨offset, .quoted, b :: tail⟩ rest rest') :
    quotedTail b 1 (tail ++ rest') = tail.length + 1 := by
  have plain : b ≠ ascii '\\' := by rcases quote with rfl | rfl <;> decide
  exact (quotedTail_append plain tail (length.trans (Nat.add_comm _ _)) follows.head?).trans (Nat.add_comm _ _)

/-- A literal ends behind its closing quote, before a newline or with the text. -/
theorem ends_of_quotedTail (quote : UInt8) (text : Octets) {count : Nat} {rest : Octets}
    (length : quotedTail quote count (text ++ rest) = count + text.length) :
    closesQuoted quote text = true ∨ rest.head? = none ∨ rest.head? = some newline := by
  match text with
  | [] => exact Or.inr (head?_of_quotedTail length)
  | [x] =>
    simp only [List.singleton_append, List.length_singleton, closesQuoted] at length ⊢
    have inLine : x ≠ newline := by
      rintro rfl
      rw [quotedTail_of_head? (Or.inr rfl)] at length
      omega
    by_cases escape : x = ascii '\\'
    · cases rest with
      | nil => exact Or.inr (Or.inl rfl)
      | cons c rest =>
        have := le_quotedTail quote (count + 2) rest
        simp only [quotedTail, escape, beq_self_eq_true, if_true] at length
        omega
    · rw [quotedTail_cons escape inLine] at length
      split at length
      · rename_i closed
        exact Or.inl closed
      · exact Or.inr (head?_of_quotedTail length)
  | x :: y :: text =>
    simp only [List.cons_append, List.length_cons, quotedTail, closesQuoted] at length ⊢
    split at length
    · rename_i escape
      rw [if_pos escape]
      exact ends_of_quotedTail quote text (length.trans (by omega))
    · rename_i unescaped
      rw [if_neg unescaped]
      split at length
      · omega
      · rename_i inLine
        rw [if_neg inLine]
        split at length
        · omega
        · rename_i open'
          rw [if_neg open']
          exact ends_of_quotedTail quote (y :: text) (length.trans (by simp only [List.length_cons]; omega))

/-- A quote after an `R` that opens no raw string opens none with other text behind it. -/
theorem rawStringLength?_eq_none (quote : b = ascii '"')
    (absent : rawStringLength? (b :: (tail ++ rest)) = none)
    (length : quotedTail b 1 (tail ++ rest) = tail.length + 1)
    (follows : Follows ⟨offset, .quoted, b :: tail⟩ rest rest') :
    rawStringLength? (b :: (tail ++ rest')) = none := by
  refine rawStringLength?_append_none absent ?_
  by_cases closed : closesQuoted b tail = true
  · exact Or.inl (quote ▸ quote_mem_of_closesQuoted closed)
  · have same : rest.head? = rest'.head? := follows.head?.resolve_left closed
    have ends := ends_of_quotedTail b tail (length.trans (Nat.add_comm _ _))
    exact Or.inr (same ▸ ends.resolve_left closed)

/-- The star belongs to the comment, which therefore has more than one octet. -/
theorem tail_ne_nil_of_blockComment
    (comment : (b == ascii '/' && (tail ++ rest).head? == some (ascii '*')) = true)
    (length : blockCommentLength (b :: (tail ++ rest)) = tail.length + 1) : tail ≠ [] := by
  rintro rfl
  cases rest with
  | nil => simp at comment
  | cons c rest =>
    simp only [blockCommentLength, List.nil_append, List.length_nil] at length
    split at length
    · omega
    · simp at length

/-- A block comment keeps its star and its length. -/
theorem blockComment_append (comment : (b == ascii '/' && (tail ++ rest).head? == some (ascii '*')) = true)
    (length : blockCommentLength (b :: (tail ++ rest)) = tail.length + 1)
    (follows : Follows ⟨offset, .blockComment, b :: tail⟩ rest rest') :
    (b == ascii '/' && (tail ++ rest').head? == some (ascii '*')) = true ∧
      blockCommentLength (b :: (tail ++ rest')) = tail.length + 1 := by
  obtain ⟨c, tail, rfl⟩ := List.exists_cons_of_ne_nil (tail_ne_nil_of_blockComment comment length)
  have closed := follows.head?
  simp only [Lexeme.isClosed, List.drop_succ_cons, List.drop_zero] at closed
  have kept := blockCommentLength_append (by simpa using length) closed
  exact ⟨comment, by simpa using kept⟩

/-- A double quote behind an `R` opens a raw string if a delimiter follows it. -/
theorem next_quote_raw {length : Nat} (found : rawStringLength? (ascii '"' :: rest) = some length) :
    next (some (ascii 'R')) (ascii '"') rest = ⟨.rawString, length⟩ := by
  simp only [next, found]
  rfl

theorem next_quote_plain (plain : previous = some (ascii 'R') → rawStringLength? (ascii '"' :: rest) = none) :
    next previous (ascii '"') rest = ⟨.quoted, quotedTail (ascii '"') 1 rest⟩ := by
  by_cases afterR : previous = some (ascii 'R')
  · simp only [next, plain afterR, ite_self]
    rfl
  · simp only [next, beq_eq_false_iff_ne.mpr afterR]
    rfl

theorem next_quote_append (read : next previous (ascii '"') (tail ++ rest) = ⟨kind, tail.length + 1⟩)
    (follows : Follows ⟨offset, kind, ascii '"' :: tail⟩ rest rest')
    (raw : previous = some (ascii 'R') ↔ previous' = some (ascii 'R')) :
    next previous' (ascii '"') (tail ++ rest') = ⟨kind, tail.length + 1⟩ := by
  by_cases opens : previous = some (ascii 'R') ∧
      ∃ length, rawStringLength? (ascii '"' :: (tail ++ rest)) = some length
  · obtain ⟨rfl, length, found⟩ := opens
    rw [next_quote_raw found] at read
    obtain ⟨rfl, rfl⟩ := Token.mk.inj read
    have whole : rawStringLength? (ascii '"' :: tail ++ rest) = some (ascii '"' :: tail).length := found
    rw [raw.mp rfl]
    exact next_quote_raw (rawStringLength?_append whole follows.head?)
  · have plain : previous = some (ascii 'R') → rawStringLength? (ascii '"' :: (tail ++ rest)) = none := by
      simpa [Option.eq_none_iff_forall_ne_some] using opens
    rw [next_quote_plain plain] at read
    obtain ⟨rfl, length⟩ := Token.mk.inj read
    have plain' (afterR : previous' = some (ascii 'R')) : rawStringLength? (ascii '"' :: (tail ++ rest')) = none :=
      rawStringLength?_eq_none rfl (plain (raw.mpr afterR)) length follows
    rw [next_quote_plain plain', quoted_append (Or.inl rfl) length follows]

/-- A token keeps its kind and its length if what follows does not extend it, and if what is before it
means the same for raw strings and numbers. -/
theorem next_append (read : next previous b (tail ++ rest) = ⟨kind, tail.length + 1⟩)
    (follows : Follows ⟨offset, kind, b :: tail⟩ rest rest')
    (raw : b = ascii '"' → (previous = some (ascii 'R') ↔ previous' = some (ascii 'R')))
    (start : isDigit b = true → atWordStart previous = atWordStart previous') :
    next previous' b (tail ++ rest') = ⟨kind, tail.length + 1⟩ := by
  have slash (c : UInt8) (comment : c = ascii '/' ∨ c = ascii '*')
      (apart : ¬ (b == ascii '/' && (tail ++ rest).head? == some c) = true) :
      ¬ (b == ascii '/' && (tail ++ rest').head? == some c) = true := by
    simp only [Bool.and_eq_true, beq_iff_eq, not_and] at apart ⊢
    exact fun isSlash => follows.slash comment (apart isSlash)
  have digit : (isDigit b && atWordStart previous) = (isDigit b && atWordStart previous') := by
    cases isDigit' : isDigit b with
    | false => rfl
    | true => rw [start isDigit']
  by_cases quote : b = ascii '"'
  · subst quote
    exact next_quote_append read follows (raw rfl)
  simp only [next, beq_eq_false_iff_ne.mpr quote, Bool.false_eq_true, if_false] at read ⊢
  by_cases line : (b == ascii '/' && (tail ++ rest).head? == some (ascii '/')) = true
  · rw [if_pos line] at read
    obtain ⟨rfl, length⟩ := Token.mk.inj read
    obtain ⟨line', kept⟩ := lineComment_append line length (follows.resolve_right fun other => other.1 rfl)
    rw [if_pos line', kept]
  rw [if_neg line] at read
  rw [if_neg (slash _ (Or.inl rfl) line)]
  by_cases block : (b == ascii '/' && (tail ++ rest).head? == some (ascii '*')) = true
  · rw [if_pos block] at read
    obtain ⟨rfl, length⟩ := Token.mk.inj read
    obtain ⟨block', kept⟩ := blockComment_append block length follows
    rw [if_pos block', kept]
  rw [if_neg block] at read
  rw [if_neg (slash _ (Or.inr rfl) block)]
  by_cases apostrophe : (b == ascii '\x27') = true
  · rw [if_pos apostrophe] at read ⊢
    obtain ⟨rfl, length⟩ := Token.mk.inj read
    simp only [quotedToken, List.drop_succ_cons, List.drop_zero] at length ⊢
    rw [quoted_append (Or.inr (beq_iff_eq.mp apostrophe)) length follows]
  rw [if_neg apostrophe] at read ⊢
  rw [← digit]
  by_cases number : (isDigit b && atWordStart previous) = true
  · rw [if_pos number] at read ⊢
    obtain ⟨rfl, length⟩ := Token.mk.inj read
    rw [number_append length follows]
  rw [if_neg number] at read ⊢
  by_cases word : isWordOctet b = true
  · rw [if_pos word] at read ⊢
    obtain ⟨rfl, length⟩ := Token.mk.inj read
    rw [word_append length follows]
  rw [if_neg word] at read ⊢
  exact read

/-- What a token at the front of `b :: rest` is and how long it is, one case for each way to read it. -/
inductive Reads (b : UInt8) (rest : Octets) (length : Nat) : TokenKind → Prop
  | lineComment (slash : b = ascii '/') (measure : lineLength (b :: rest) = length) :
      Reads b rest length .lineComment
  | blockComment (comment : (b == ascii '/' && rest.head? == some (ascii '*')) = true)
      (measure : blockCommentLength (b :: rest) = length) : Reads b rest length .blockComment
  | rawString (measure : rawStringLength? (b :: rest) = some length) : Reads b rest length .rawString
  | quoted (quote : b = ascii '"' ∨ b = ascii '\x27') (measure : quotedTail b 1 rest = length) :
      Reads b rest length .quoted
  | number (measure : numberTail b 1 rest = length) : Reads b rest length .number
  | word (starts : isWordOctet b = true) (measure : ((b :: rest).takeWhile isWordOctet).length = length) :
      Reads b rest length .word
  | single {kind : TokenKind} (other : isWordOctet b = false) (measure : 1 = length) :
      Reads b rest length kind

theorem reads_of_next {length : Nat} (read : next previous b rest = ⟨kind, length⟩) :
    Reads b rest length kind := by
  simp only [next] at read
  by_cases line : (b == ascii '/' && rest.head? == some (ascii '/')) = true
  · rw [if_pos line] at read
    obtain ⟨rfl, measure⟩ := Token.mk.inj read
    simp only [Bool.and_eq_true, beq_iff_eq] at line
    exact .lineComment line.1 measure
  rw [if_neg line] at read
  by_cases block : (b == ascii '/' && rest.head? == some (ascii '*')) = true
  · rw [if_pos block] at read
    obtain ⟨rfl, measure⟩ := Token.mk.inj read
    exact .blockComment block measure
  rw [if_neg block] at read
  by_cases quote : (b == ascii '"') = true
  · rw [if_pos quote] at read
    have quote' : b = ascii '"' ∨ b = ascii '\x27' := Or.inl (beq_iff_eq.mp quote)
    split at read
    · split at read
      · rename_i found
        obtain ⟨rfl, rfl⟩ := Token.mk.inj read
        exact .rawString found
      · obtain ⟨rfl, measure⟩ := Token.mk.inj read
        exact .quoted quote' measure
    · obtain ⟨rfl, measure⟩ := Token.mk.inj read
      exact .quoted quote' measure
  rw [if_neg quote] at read
  by_cases apostrophe : (b == ascii '\x27') = true
  · rw [if_pos apostrophe] at read
    obtain ⟨rfl, measure⟩ := Token.mk.inj read
    exact .quoted (Or.inr (beq_iff_eq.mp apostrophe)) measure
  rw [if_neg apostrophe] at read
  by_cases number : (isDigit b && atWordStart previous) = true
  · rw [if_pos number] at read
    obtain ⟨rfl, measure⟩ := Token.mk.inj read
    exact .number measure
  rw [if_neg number] at read
  by_cases word : isWordOctet b = true
  · rw [if_pos word] at read
    obtain ⟨rfl, measure⟩ := Token.mk.inj read
    exact .word word measure
  · rw [if_neg word] at read
    have measure : 1 = length := by
      split_ifs at read <;> exact (Token.mk.inj read).2
    exact .single (Bool.eq_false_iff.mpr word) measure

theorem rawStringLength?_bounds {text : Octets} {length : Nat} (found : rawStringLength? text = some length) :
    1 ≤ length ∧ length ≤ text.length := by
  simp only [rawStringLength?] at found
  split at found
  · simp at found
  · rename_i bracket
    have shorter : (text.takeWhile (· != ascii '(')).length ≤ text.length := (List.takeWhile_sublist _).length_le
    have bracket' : (text.takeWhile (· != ascii '(')).length ≠ text.length := by simpa using bracket
    split at found
    · simp at found
    · split at found
      · rename_i inner search
        have bounds := indexFrom?_bounds search
        simp only [List.length_drop] at bounds
        simp only [Option.some.injEq] at found
        simp only [List.length_append, List.length_cons, List.length_nil] at found bounds
        omega
      · simp only [Option.some.injEq] at found
        omega

theorem blockCommentLength_bounds {text : Octets} (opened : 2 ≤ text.length) :
    1 ≤ blockCommentLength text ∧ blockCommentLength text ≤ text.length := by
  unfold blockCommentLength
  split
  · rename_i inner search
    have bounds := indexFrom?_bounds search
    simp only [List.length_drop, List.length_cons, List.length_nil] at bounds
    omega
  · omega

/-- A token has an octet at least, and no more than the text. -/
theorem next_length_bounds (previous : Option UInt8) (b : UInt8) (rest : Octets) :
    1 ≤ (next previous b rest).length ∧ (next previous b rest).length ≤ rest.length + 1 := by
  obtain ⟨kind, length, read⟩ : ∃ kind length, next previous b rest = ⟨kind, length⟩ := ⟨_, _, rfl⟩
  rw [read]
  show 1 ≤ length ∧ length ≤ rest.length + 1
  cases reads_of_next read with
  | lineComment slash measure =>
    have inLine : b ≠ newline := by
      rintro rfl
      simp [newline, ascii] at slash
    have upper := (List.takeWhile_sublist (l := b :: rest) (· != newline)).length_le
    subst measure
    exact ⟨by simp [lineLength, inLine], upper⟩
  | blockComment comment measure =>
    cases rest with
    | nil => simp at comment
    | cons c rest =>
      subst measure
      exact blockCommentLength_bounds (by simp)
  | rawString measure => exact rawStringLength?_bounds measure
  | quoted quote measure =>
    have lower := le_quotedTail b 1 rest
    have upper := quotedTail_le b 1 rest
    omega
  | number measure =>
    have lower := le_numberTail b 1 rest
    have upper := numberTail_le b 1 rest
    omega
  | word starts measure =>
    have upper := (List.takeWhile_sublist (l := b :: rest) isWordOctet).length_le
    subst measure
    exact ⟨by simp [starts], upper⟩
  | single other measure => omega

/-- A text that ends with a found pattern ends with the pattern's last octet. -/
theorem getLast?_of_indexOf? {pattern text rest : Octets} {found : Nat} {last : UInt8}
    (search : indexOf? pattern (text ++ rest) = some found) (ends : found + pattern.length = text.length)
    (atLast : pattern.getLast? = some last) : text.getLast? = some last := by
  have starts := startsWith_of_indexFrom? search
  obtain ⟨behind, split⟩ := startsWith_iff.mp starts
  rw [Nat.sub_zero, List.drop_append_of_le_length (by omega)] at split
  have tail : text.drop found = pattern := by
    refine (List.append_inj split ?_).1
    rw [List.length_drop]
    omega
  rw [← List.take_append_drop found text, tail]
  simp [List.getLast?_append, atLast]

/-- A closed literal ends with its quote. -/
theorem getLast?_of_closesQuoted {quote : UInt8} (text : Octets) {count : Nat} {rest : Octets}
    (length : quotedTail quote count (text ++ rest) = count + text.length)
    (closed : closesQuoted quote text = true) : text.getLast? = some quote := by
  match text with
  | [] => simp [closesQuoted] at closed
  | [x] =>
    obtain rfl : x = quote := by simpa [closesQuoted] using closed
    rfl
  | x :: y :: text =>
    simp only [List.cons_append, List.length_cons, quotedTail, closesQuoted] at length closed
    split at length
    · rename_i escape
      rw [if_pos escape] at closed
      have inner := getLast?_of_closesQuoted text (length.trans (by omega)) closed
      cases text with
      | nil => simp at inner
      | cons z text => simpa [List.getLast?_cons_cons] using inner
    · rename_i unescaped
      rw [if_neg unescaped] at closed
      split at length
      · omega
      · rename_i inLine
        rw [if_neg inLine] at closed
        split at length
        · omega
        · rename_i open'
          rw [if_neg open'] at closed
          have inner := getLast?_of_closesQuoted (y :: text)
            (length.trans (by simp only [List.length_cons]; omega)) closed
          simpa [List.getLast?_cons_cons] using inner

/-- A closed raw string ends with a quote. -/
theorem getLast?_of_closesRaw {text rest : Octets} (length : rawStringLength? (text ++ rest) = some text.length)
    (closed : closesRaw text = true) : text.getLast? = some (ascii '"') := by
  have alone := rawStringLength?_append length (Or.inl closed : _ ∨ rest.head? = ([] : Octets).head?)
  rw [List.append_nil] at alone
  simp only [rawStringLength?] at alone
  obtain ⟨inner, found⟩ := Option.isSome_iff_exists.mp closed
  split at alone
  · simp at alone
  · split at alone
    · simp at alone
    · rw [found] at alone
      simp only [Option.some.injEq] at alone
      have ends : inner + (ascii ')' :: (text.takeWhile (· != ascii '(')).drop 1 ++ [ascii '"']).length =
          (text.drop (text.takeWhile (· != ascii '(')).length).length := by
        rw [List.length_drop]
        omega
      rw [← List.append_nil (text.drop _)] at found
      have last := getLast?_of_indexOf? found ends List.getLast?_concat
      rw [← List.take_append_drop (text.takeWhile (· != ascii '(')).length text, List.getLast?_append, last]
      rfl

/-- A closed token of any other kind than a line comment, a number or a word ends in no word octet. -/
theorem not_isWordOctet_getLast? (read : next previous b (tail ++ rest) = ⟨kind, tail.length + 1⟩)
    (closed : (Lexeme.mk offset kind (b :: tail)).isClosed = true) (notLine : kind ≠ .lineComment)
    (notNumber : kind ≠ .number) (notWord : kind ≠ .word) {last : UInt8}
    (atLast : (b :: tail).getLast? = some last) : isWordOctet last = false := by
  have apart (c : UInt8) (quote : c = ascii '"' ∨ c = ascii '\x27' ∨ c = ascii '/') : isWordOctet c = false := by
    rcases quote with rfl | rfl | rfl <;> decide
  cases reads_of_next read with
  | lineComment => exact absurd rfl notLine
  | number => exact absurd rfl notNumber
  | word => exact absurd rfl notWord
  | blockComment comment length =>
    obtain ⟨c, tail, rfl⟩ := List.exists_cons_of_ne_nil (tail_ne_nil_of_blockComment comment length)
    have closed' : (indexOf? [ascii '*', ascii '/'] tail).isSome = true := closed
    obtain ⟨inner, found⟩ := Option.isSome_iff_exists.mp closed'
    have alone := blockCommentLength_append (by simpa using length)
      (Or.inl closed' : _ ∨ rest.head? = ([] : Octets).head?)
    simp only [blockCommentLength, List.append_nil, List.drop_succ_cons, List.drop_zero, found] at alone
    rw [← List.append_nil tail] at found
    have ends := getLast?_of_indexOf? found (by simp; omega) rfl
    cases tail with
    | nil => simp at ends
    | cons d tail =>
      rw [List.getLast?_cons_cons, List.getLast?_cons_cons, ends] at atLast
      cases atLast
      exact apart _ (Or.inr (Or.inr rfl))
  | rawString whole =>
    have whole' : rawStringLength? (b :: tail ++ rest) = some (b :: tail).length := whole
    rw [getLast?_of_closesRaw whole' closed] at atLast
    cases atLast
    exact apart _ (Or.inl rfl)
  | quoted quote length =>
    have ends := getLast?_of_closesQuoted tail (length.trans (Nat.add_comm _ _)) closed
    cases tail with
    | nil => simp at ends
    | cons c tail =>
      rw [List.getLast?_cons_cons, ends] at atLast
      cases atLast
      exact apart _ (quote.imp_right Or.inl)
  | single other length =>
    obtain rfl : tail = [] := List.length_eq_zero_iff.mp (by omega)
    cases atLast
    exact other

/-- After a token that ends in a word octet no word octet follows. -/
theorem not_isWordOctet_head? (read : next previous b (tail ++ rest) = ⟨kind, tail.length + 1⟩) {last x : UInt8}
    (atLast : (b :: tail).getLast? = some last) (word : isWordOctet last = true) (first : rest.head? = some x) :
    isWordOctet x = false := by
  have atEnd : rest ≠ [] := by
    rintro rfl
    simp at first
  have closes (notLine : kind ≠ .lineComment) (notNumber : kind ≠ .number) (notWord : kind ≠ .word) :
      (Lexeme.mk 0 kind (b :: tail)).isClosed = false := by
    by_contra closed
    have apart := not_isWordOctet_getLast? read (by simpa using closed) notLine notNumber notWord atLast
    simp [word] at apart
  have inLine : isWordOctet newline = false := by decide
  cases reads_of_next read with
  | lineComment slash length =>
    have found : ((b :: tail ++ rest).takeWhile (· != newline)).length = (b :: tail).length := by
      simpa [lineLength] using length
    have line : x = newline := by simpa using (stop_of_length_takeWhile found).2 x first
    rw [line]
    exact inLine
  | blockComment comment length =>
    obtain ⟨c, tail, rfl⟩ := List.exists_cons_of_ne_nil (tail_ne_nil_of_blockComment comment length)
    have open' : (indexOf? [ascii '*', ascii '/'] tail).isSome = false := closes (by simp) (by simp) (by simp)
    exfalso
    simp only [blockCommentLength, List.cons_append, List.drop_succ_cons, List.drop_zero] at length
    split at length
    · rename_i inner found
      have alone := indexOf?_append rest [] found (by simp at length ⊢; omega) (by simp)
      rw [List.append_nil] at alone
      simp [alone] at open'
    · simp only [List.length_cons, List.length_append] at length
      exact atEnd (List.length_eq_zero_iff.mp (by omega))
  | rawString whole =>
    have whole' : rawStringLength? (b :: tail ++ rest) = some (b :: tail).length := whole
    have open' : closesRaw (b :: tail) = false := closes (by simp) (by simp) (by simp)
    exact absurd ((ends_of_rawStringLength? whole').resolve_left (by simp [open'])) atEnd
  | quoted quote length =>
    have open' : closesQuoted b tail = false := closes (by simp) (by simp) (by simp)
    rcases ends_of_quotedTail b tail (length.trans (Nat.add_comm _ _)) with closed | last | line
    · simp [open'] at closed
    · simp [first] at last
    · rw [first] at line
      cases line
      exact inLine
  | number length => exact not_isWordOctet_of_number tail (length.trans (Nat.add_comm _ _)) first
  | word starts length =>
    have found : ((b :: tail ++ rest).takeWhile isWordOctet).length = (b :: tail).length := by simpa using length
    exact (stop_of_length_takeWhile found).2 x first
  | single other length =>
    obtain rfl : tail = [] := List.length_eq_zero_iff.mp (by omega)
    cases atLast
    exact absurd (other.symm.trans word) (by decide)

theorem next_space (previous : Option UInt8) (rest : Octets) : next previous (ascii ' ') rest = ⟨.other, 1⟩ := by
  simp [next, ascii, isDigit, isWordOctet, isAlphanumeric, isLetter]

theorem next_closeParen (previous : Option UInt8) (rest : Octets) :
    next previous (ascii ')') rest = ⟨.closeParen, 1⟩ := by
  simp [next, ascii, isDigit, isWordOctet, isAlphanumeric, isLetter]

theorem next_openBrace (previous : Option UInt8) (rest : Octets) :
    next previous (ascii '\x7b') rest = ⟨.openBrace, 1⟩ := by
  simp [next, ascii, isDigit, isWordOctet, isAlphanumeric, isLetter]

theorem next_closeBrace (previous : Option UInt8) (rest : Octets) :
    next previous (ascii '\x7d') rest = ⟨.closeBrace, 1⟩ := by
  simp [next, ascii, isDigit, isWordOctet, isAlphanumeric, isLetter]

/-- A letter starts a word, which takes all word octets. -/
theorem word_of_next (word : isWordOctet b = true) (letter : isDigit b = false)
    (read : next previous b (tail ++ rest) = ⟨kind, tail.length + 1⟩) :
    kind = .word ∧ (b :: (tail ++ rest)).takeWhile isWordOctet = b :: tail := by
  have apart (c : UInt8) (other : isWordOctet c = false) : (b == c) = false := by
    rw [beq_eq_false_iff_ne]
    rintro rfl
    simp [word] at other
  simp only [next, apart (ascii '/') (by decide), apart (ascii '"') (by decide), apart (ascii '\x27') (by decide),
    letter, word, Bool.false_and, Bool.false_eq_true, if_false, if_true] at read
  obtain ⟨rfl, length⟩ := Token.mk.inj read
  refine ⟨rfl, ?_⟩
  have found : ((b :: tail ++ rest).takeWhile isWordOctet).length = (b :: tail).length := by simpa using length
  obtain ⟨all, stop⟩ := stop_of_length_takeWhile found
  exact takeWhile_append_of_stop all stop

end Token

end SourceCoverage
