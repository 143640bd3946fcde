import SourceCoverage.Octets

namespace SourceCoverage

inductive TokenKind where
  | lineComment
  | blockComment
  | rawString
  | quoted
  | number
  | word
  | openParen
  | closeParen
  | openBrace
  | closeBrace
  | other
deriving DecidableEq, Repr

/-- A token at the front of a text, and how many octets it has. -/
structure Token where
  kind : TokenKind
  length : Nat
deriving DecidableEq, Repr

namespace Token

open Octets

def isWordOctet (b : UInt8) : Bool := b == ascii '_' || isAlphanumeric b

/-- A word can start where no word octet stands in front. -/
def atWordStart (previous : Option UInt8) : Bool :=
  match previous with
  | none => true
  | some b => !isWordOctet b

/-- Octets of a text up to its first newline. -/
def lineLength (text : Octets) : Nat := (text.takeWhile (· != newline)).length

/-- A block comment, with its delimiters. The closing one is looked for after the opening one. -/
def blockCommentLength (text : Octets) : Nat :=
  match indexOf? [ascii '*', ascii '/'] (text.drop 2) with
  | some inner => inner + 4
  | none => text.length

/-- The rest of a literal after its opening quote. It ends after the closing quote or before a newline;
a backslash takes the next octet with it. -/
def quotedTail (quote : UInt8) (count : Nat) : Octets → Nat
  | [] => count
  | [b] => if b == newline then count else count + 1
  | b :: c :: rest =>
    if b == ascii '\\' then quotedTail quote (count + 2) rest
    else if b == newline then count
    else if b == quote then count + 1
    else quotedTail quote (count + 1) (c :: rest)

/-- The length of a raw string literal from its opening quote on, if a delimiter follows the quote. -/
def rawStringLength? (text : Octets) : Option Nat :=
  let opening := text.takeWhile (· != ascii '(')
  let delimiter := opening.drop 1
  if opening.length == text.length then none
  else if delimiter.length > 16 || delimiter.any fun b => isBlank b || b == ascii '"' then none
  else
    let terminator := ascii ')' :: delimiter ++ [ascii '"']
    match indexOf? terminator (text.drop opening.length) with
    | some inner => some (opening.length + inner + terminator.length)
    | none => some text.length

def isExponentMark (b : UInt8) : Bool :=
  b == ascii 'e' || b == ascii 'E' || b == ascii 'p' || b == ascii 'P'

/-- The rest of a number after the octet `previous`. A quote may separate digits, and a sign may follow
an exponent mark. -/
def numberTail (previous : UInt8) (count : Nat) : Octets → Nat
  | [] => count
  | b :: rest =>
    let separates := b == ascii '\x27' && (rest.head?.any isAlphanumeric)
    let signs := (b == ascii '+' || b == ascii '-') && isExponentMark previous
    if isWordOctet b || b == ascii '.' || separates || signs then numberTail b (count + 1) rest
    else count

def quotedToken (quote : UInt8) (text : Octets) : Token := ⟨.quoted, quotedTail quote 1 (text.drop 1)⟩

/-- The token at the front of `b :: rest`, which comes after the octet `previous`. -/
def next (previous : Option UInt8) (b : UInt8) (rest : Octets) : Token :=
  let text := b :: rest
  if b == ascii '/' && rest.head? == some (ascii '/') then ⟨.lineComment, lineLength text⟩
  else if b == ascii '/' && rest.head? == some (ascii '*') then ⟨.blockComment, blockCommentLength text⟩
  else if b == ascii '"' then
    if previous == some (ascii 'R') then
      match rawStringLength? text with
      | some length => ⟨.rawString, length⟩
      | none => quotedToken b text
    else quotedToken b text
  else if b == ascii '\x27' then quotedToken b text
  else if isDigit b && atWordStart previous then ⟨.number, numberTail b 1 rest⟩
  else if isWordOctet b then ⟨.word, (text.takeWhile isWordOctet).length⟩
  else if b == ascii '(' then ⟨.openParen, 1⟩
  else if b == ascii ')' then ⟨.closeParen, 1⟩
  else if b == ascii '\x7b' then ⟨.openBrace, 1⟩
  else if b == ascii '\x7d' then ⟨.closeBrace, 1⟩
  else ⟨.other, 1⟩

end Token

end SourceCoverage
