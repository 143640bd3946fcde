import SourceCoverage.Toml.Value

namespace SourceCoverage

namespace Toml

def isBlank (c : Char) : Bool := c == ' ' || c == '\t'

/-- Control characters other than the tab; they stand in no comment and no string. -/
def isControl (c : Char) : Bool := (c.toNat < 32 && c != '\t') || c.toNat == 127

def skipBlanks (text : List Char) : List Char := text.dropWhile isBlank

/-- What follows a line end; a carriage return belongs to a line feed. -/
def newline? : List Char → Option (List Char)
  | '\n' :: rest => some rest
  | '\r' :: '\n' :: rest => some rest
  | _ => none

def skipComment (text : List Char) : List Char :=
  match text with
  | '#' :: rest => rest.dropWhile (! isControl ·)
  | _ => text

/-- What follows the rest of a line, on which only blanks and a comment may stand. -/
def endLine? (text : List Char) : Option (List Char) :=
  match skipComment (skipBlanks text) with
  | [] => some []
  | rest => newline? rest

/-- Skips blanks, line ends and comments. -/
def skipGap (inComment : Bool) : List Char → Option (List Char)
  | [] => some []
  | '\r' :: '\n' :: rest => skipGap false rest
  | c :: rest =>
    if c == '\n' then skipGap false rest
    else if inComment then if isControl c then none else skipGap true rest
    else if isBlank c then skipGap false rest
    else if c == '#' then skipGap true rest
    else some (c :: rest)

def hexDigit? (c : Char) : Option Nat :=
  if c.isDigit then some (c.toNat - 48)
  else if 'a' ≤ c && c ≤ 'f' then some (c.toNat - 87)
  else if 'A' ≤ c && c ≤ 'F' then some (c.toNat - 55)
  else none

/-- A number of exactly `width` hexadecimal digits. -/
def takeHex (value : Nat) : (width : Nat) → List Char → Option (Nat × List Char)
  | 0, text => some (value, text)
  | _ + 1, [] => none
  | width + 1, c :: rest => (hexDigit? c).bind fun digit => takeHex (16 * value + digit) width rest

def scalar? (n : Nat) : Option Char := if n.isValidChar then some (Char.ofNat n) else none

/-- What a backslash and the text after it stand for. -/
def escape? : List Char → Option (Char × List Char)
  | 'b' :: rest => some (Char.ofNat 8, rest)
  | 't' :: rest => some ('\t', rest)
  | 'n' :: rest => some ('\n', rest)
  | 'f' :: rest => some (Char.ofNat 12, rest)
  | 'r' :: rest => some ('\r', rest)
  | 'e' :: rest => some (Char.ofNat 27, rest)
  | '"' :: rest => some ('"', rest)
  | '\\' :: rest => some ('\\', rest)
  | 'x' :: rest => coded 2 rest
  | 'u' :: rest => coded 4 rest
  | 'U' :: rest => coded 8 rest
  | _ => none
where
  coded (width : Nat) (text : List Char) : Option (Char × List Char) :=
    (takeHex 0 width text).bind fun (n, rest) => (scalar? n).map (·, rest)

/-- The rest of a string in double quotes, on one line. -/
def takeBasic (out : List Char) : (steps : Nat) → List Char → Option (String × List Char)
  | 0, _ => none
  | steps + 1, text =>
    match text with
    | [] => none
    | '"' :: rest => some (String.ofList out.reverse, rest)
    | '\\' :: rest =>
      match escape? rest with
      | some (c, rest) => takeBasic (c :: out) steps rest
      | none => none
    | c :: rest => if isControl c then none else takeBasic (c :: out) steps rest

/-- The rest of a string in single quotes, on one line. -/
def takeLiteral (out : List Char) : List Char → Option (String × List Char)
  | [] => none
  | c :: rest =>
    if c == '\x27' then some (String.ofList out.reverse, rest)
    else if isControl c then none
    else takeLiteral (c :: out) rest

/-- A line end right after the opening quotes does not count. -/
def skipFirstNewline (text : List Char) : List Char := (newline? text).getD text

/-- What follows a backslash at the end of a line: the text is continued at its next visible character. -/
def continuation? (text : List Char) : Option (List Char) :=
  (newline? (skipBlanks text)).map fun rest => skipFolds rest
where
  skipFolds : List Char → List Char
    | '\r' :: '\n' :: rest => skipFolds rest
    | c :: rest => if c == '\n' || isBlank c then skipFolds rest else c :: rest
    | [] => []

/-- A run of quotes in a string that three of them end: up to two before the end belong to the string. -/
def closing? (quote : Char) (text : List Char) : Option (Nat × List Char) :=
  let run := (text.takeWhile (· == quote)).length
  if run < 3 then none
  else
    let kept := min (run - 3) 2
    some (kept, text.drop (kept + 3))

/-- The rest of a string in three double quotes. -/
def takeMultiBasic (out : List Char) : (steps : Nat) → List Char → Option (String × List Char)
  | 0, _ => none
  | steps + 1, text =>
    match closing? '"' text with
    | some (kept, rest) => some (String.ofList (out.reverse ++ List.replicate kept '"'), rest)
    | none =>
      match text with
      | [] => none
      | '\\' :: rest =>
        match continuation? rest with
        | some rest => takeMultiBasic out steps rest
        | none =>
          match escape? rest with
          | some (c, rest) => takeMultiBasic (c :: out) steps rest
          | none => none
      | '\r' :: '\n' :: rest => takeMultiBasic ('\n' :: '\r' :: out) steps rest
      | c :: rest =>
        if c != '\n' && isControl c then none else takeMultiBasic (c :: out) steps rest

/-- The rest of a string in three single quotes. -/
def takeMultiLiteral (out : List Char) : (steps : Nat) → List Char → Option (String × List Char)
  | 0, _ => none
  | steps + 1, text =>
    match closing? '\x27' text with
    | some (kept, rest) => some (String.ofList (out.reverse ++ List.replicate kept '\x27'), rest)
    | none =>
      match text with
      | [] => none
      | '\r' :: '\n' :: rest => takeMultiLiteral ('\n' :: '\r' :: out) steps rest
      | c :: rest =>
        if c != '\n' && isControl c then none else takeMultiLiteral (c :: out) steps rest

/-- A string of any of the four kinds. -/
def takeString? (text : List Char) : Option (Option (String × List Char)) :=
  match text with
  | '"' :: '"' :: '"' :: rest => some (takeMultiBasic [] (rest.length + 1) (skipFirstNewline rest))
  | '"' :: rest => some (takeBasic [] (rest.length + 1) rest)
  | '\x27' :: '\x27' :: '\x27' :: rest => some (takeMultiLiteral [] (rest.length + 1) (skipFirstNewline rest))
  | '\x27' :: rest => some (takeLiteral [] rest)
  | _ => none

def isBare (c : Char) : Bool := c.isAlphanum || c == '_' || c == '-'

/-- One key: bare or in quotes. -/
def takeKey (text : List Char) : Option (String × List Char) :=
  match text with
  | '"' :: rest => takeBasic [] (rest.length + 1) rest
  | '\x27' :: rest => takeLiteral [] rest
  | _ =>
    match text.takeWhile isBare with
    | [] => none
    | bare => some (String.ofList bare, text.dropWhile isBare)

/-- Keys joined by dots, first to last. -/
def takeKeys : (steps : Nat) → List Char → Option (List String × List Char)
  | 0, _ => none
  | steps + 1, text => do
    let (key, rest) ← takeKey (skipBlanks text)
    match skipBlanks rest with
    | '.' :: rest =>
      let (keys, rest) ← takeKeys steps rest
      return (key :: keys, rest)
    | rest => return ([key], rest)

/-- Digits of a base, single underscores being allowed between them. -/
def digitsValue? (base : Nat) (digits : List Char) : Option Nat :=
  match digits with
  | [] => none
  | c :: rest => (digit? c).bind fun d => go d rest
where
  digit? (c : Char) : Option Nat := (hexDigit? c).filter (· < base)
  go (value : Nat) : List Char → Option Nat
    | [] => some value
    | '_' :: c :: rest => (digit? c).bind fun d => go (base * value + d) rest
    | c :: rest => (digit? c).bind fun d => go (base * value + d) rest

/-- A decimal number starts with a zero only if it is zero. -/
def decimal? (digits : List Char) : Option Nat :=
  match digits with
  | '0' :: _ :: _ => none
  | _ => digitsValue? 10 digits

def unsigned (text : List Char) : Bool × List Char :=
  match text with
  | '-' :: rest => (true, rest)
  | '+' :: rest => (false, rest)
  | _ => (false, text)

def integer? (text : List Char) : Option Int :=
  match text with
  | '0' :: 'x' :: digits => (digitsValue? 16 digits).map Int.ofNat
  | '0' :: 'o' :: digits => (digitsValue? 8 digits).map Int.ofNat
  | '0' :: 'b' :: digits => (digitsValue? 2 digits).map Int.ofNat
  | _ =>
    let (negative, digits) := unsigned text
    (decimal? digits).map fun n => if negative then -Int.ofNat n else Int.ofNat n

/-- Text divided at the first character of a kind. -/
def divideAt (isMark : Char → Bool) (text : List Char) : List Char × Option (List Char) :=
  match text.dropWhile (! isMark ·) with
  | [] => (text, none)
  | _ :: rest => (text.takeWhile (! isMark ·), some rest)

def isFloat (text : List Char) : Bool :=
  let body := (unsigned text).2
  if body == "inf".toList || body == "nan".toList then true
  else
    let (mantissa, exponent) := divideAt (fun c => c == 'e' || c == 'E') body
    let (whole, fraction) := divideAt (· == '.') mantissa
    (exponent.isSome || fraction.isSome) && (decimal? whole).isSome &&
      (fraction.all fun f => (digitsValue? 10 f).isSome) &&
      (exponent.all fun e => (digitsValue? 10 (unsigned e).2).isSome)

/-- A number of exactly `width` digits within bounds. -/
def isField (width low high : Nat) (text : List Char) : Bool :=
  text.length == width && text.all Char.isDigit &&
    ((digitsValue? 10 text).any fun n => low ≤ n && n ≤ high)

def daysOf (year month : Nat) : Nat :=
  if month == 2 then if (year % 4 == 0 && year % 100 != 0) || year % 400 == 0 then 29 else 28
  else if month == 4 || month == 6 || month == 9 || month == 11 then 30
  else 31

def isDate (text : List Char) : Bool :=
  let year := text.take 4
  let month := (text.drop 5).take 2
  text.length == 10 && text[4]? == some '-' && text[7]? == some '-' && isField 4 0 9999 year &&
    isField 2 1 12 month &&
    isField 2 1 (daysOf ((digitsValue? 10 year).getD 0) ((digitsValue? 10 month).getD 0)) (text.drop 8)

/-- Hours and minutes, and seconds with a fraction if they are given. -/
def isTime (text : List Char) : Bool :=
  let seconds := text.drop 5
  text[2]? == some ':' && isField 2 0 23 (text.take 2) && isField 2 0 59 ((text.drop 3).take 2) &&
    (seconds.isEmpty ||
      (seconds.head? == some ':' && isField 2 0 60 ((seconds.drop 1).take 2) &&
        (match seconds.drop 3 with
          | [] => true
          | '.' :: fraction => !fraction.isEmpty && fraction.all Char.isDigit
          | _ => false)))

def isOffset (text : List Char) : Bool :=
  text == ['Z'] || text == ['z'] ||
    ((text.head? == some '+' || text.head? == some '-') && text.length == 6 && text[3]? == some ':' &&
      isField 2 0 23 ((text.drop 1).take 2) && isField 2 0 59 (text.drop 4))

def isZoneMark (c : Char) : Bool := c == 'Z' || c == 'z' || c == '+' || c == '-'

/-- A date, a time, or both with or without a time zone. -/
def isInstant (text : List Char) : Bool :=
  if isDate text || isTime text then true
  else
    let rest := text.drop 11
    let time := rest.takeWhile (! isZoneMark ·)
    let zone := rest.dropWhile (! isZoneMark ·)
    let mark := text[10]?
    isDate (text.take 10) && (mark == some 'T' || mark == some 't' || mark == some ' ') && isTime time &&
      (zone.isEmpty || isOffset zone)

/-- What a word without quotes stands for. -/
def unquoted? (text : List Char) : Option Value :=
  if text == "true".toList then some (.boolean true)
  else if text == "false".toList then some (.boolean false)
  else
    match integer? text with
    | some n => some (.integer n)
    | none =>
      if isFloat text then some (.float (String.ofList text))
      else if isInstant text then some (.instant (String.ofList text))
      else none

def isUnquoted (c : Char) : Bool := isBare c || c == '+' || c == '.' || c == ':'

/-- A word without quotes. A time may follow its date after one blank. -/
def takeUnquoted (text : List Char) : List Char × List Char :=
  let word := text.takeWhile isUnquoted
  let rest := text.dropWhile isUnquoted
  match rest with
  | ' ' :: c :: more =>
    if isDate word && c.isDigit then
      (word ++ ' ' :: (c :: more).takeWhile isUnquoted, (c :: more).dropWhile isUnquoted)
    else (word, rest)
  | _ => (word, rest)

end Toml

end SourceCoverage
