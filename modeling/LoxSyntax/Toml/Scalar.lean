import LoxSyntax.Number.Numeral
import LoxSyntax.Toml.Reader
import LoxSyntax.Toml.Value
set_option autoImplicit false

/-! # Texts, numbers and moments of a configuration

The values that hold no other values. Texts are read with a cursor, since they are reported where
they go wrong. Numbers, dates and times are matched against the text ahead as far as they go, and
what follows them is looked at by whoever reads on. -/

namespace LoxSyntax.Toml

/-! ## Texts -/

/-- The value of a hexadecimal digit. -/
def hexDigit? (c : Char) : Option Nat :=
  if c.isDigit then some (c.toNat - '0'.toNat)
  else if 'a' ≤ c && c ≤ 'f' then some (c.toNat - 'a'.toNat + 10)
  else if 'A' ≤ c && c ≤ 'F' then some (c.toNat - 'A'.toNat + 10)
  else none

/-- The number that hexadecimal digits spell. -/
def hexValue? (digits : List Char) : Option Nat :=
  digits.foldl (fun value c => do return 16 * (← value) + (← hexDigit? c)) (some 0)

/-- The character that the next `width` hexadecimal digits stand for. -/
def readHexChar (width : Nat) : Reader (List Char) := do
  let digits := (← get).rest.take width
  match if digits.length = width then hexValue? digits else none with
  | none => Reader.fail .invalidHex
  | some code => do
    Reader.skip width
    if code.isValidChar then return [Char.ofNat code] else Reader.fail .notScalar

/-- The character that stands behind a backslash for another one. -/
def escapedChar? (c : Char) : Option Char :=
  match c with
  | 'b' => some '\x08'
  | 't' => some '\t'
  | 'n' => some '\n'
  | 'f' => some '\x0c'
  | 'r' => some '\r'
  | '"' => some '"'
  | '\\' => some '\\'
  | _ => none

/-- What a backslash and the characters after it stand for. In a text of several lines a backslash
    at the end of a line takes away the line end and all space after it. -/
def readEscape (multiline : Bool) : Reader (List Char) := do
  let next := (← get).rest.tail.head?
  Reader.skip 2
  match next with
  | some 'u' => readHexChar 4
  | some 'U' => readHexChar 8
  | some c =>
    if multiline && c = '\n' then
      Reader.skipSpace
      return []
    else if multiline && (c = ' ' || c = '\t') then
      Reader.skipBlanks
      match ← Reader.peek with
      | none => return []
      | some '\n' => do
        Reader.skipSpace
        return []
      | some _ => Reader.fail .strayBackslash
    else
      match escapedChar? c with
      | some escaped => return [escaped]
      | none => Reader.fail .strayBackslash
  | none => Reader.fail .strayBackslash

/-- The rest of a text between double quotes, from within. Each step takes a character or more, so
    `bound` need be no larger than the number of characters ahead. -/
def readBasicRest (multiline : Bool) (bound : Nat) : Reader (List Char) := do
  match bound with
  | 0 => Reader.fail .unterminatedText
  | bound + 1 =>
    match ← Reader.peek with
    | none => Reader.fail .unterminatedText
    | some '"' =>
      if !multiline then
        Reader.skip 1
        return []
      else if ← Reader.sees "\"\"\"" then
        Reader.skip 3
        return []
      else
        Reader.skip 1
        return '"' :: (← readBasicRest multiline bound)
    | some '\\' => do
      let escaped ← readEscape multiline
      return escaped ++ (← readBasicRest multiline bound)
    | some c =>
      if isControl c && !(multiline && c = '\n') then Reader.fail (.illegalCharacter c)
      else
        Reader.skip 1
        return c :: (← readBasicRest multiline bound)

/-- The rest of a text between double quotes, from within. -/
def readBasic (multiline : Bool) : Reader (List Char) := do
  readBasicRest multiline ((← get).rest.length + 1)

/-- A text on one line between double quotes, from its first quote on. -/
def readBasicLine : Reader String := do
  Reader.skip 1
  return String.ofList (← readBasic false)

/-- A text on one line between single quotes, from its first quote on. -/
def readLiteralLine : Reader String := do
  Reader.skip 1
  let content ← Reader.takeUpTo "'" isControl
  Reader.skip 1
  return String.ofList content

/-- Up to two quotes right behind the closing ones, which still belong to the text. -/
def readExtraQuotes (quote : Char) : Reader (List Char) := do
  let extra := ((← get).rest.take 2).takeWhile (· = quote)
  Reader.skip extra.length
  return extra

/-- A text of several lines, from its opening quotes on. A line end right behind them is no part of
    the text. -/
def readMultiline (quote : Char) : Reader String := do
  Reader.skip 3
  if (← Reader.peek) = some '\n' then Reader.skip 1
  let content ←
    if quote = '"' then readBasic true
    else do
      let content ← Reader.takeUpTo "'''" fun c => isControl c && c ≠ '\n'
      Reader.skip 3
      pure content
  return String.ofList (content ++ (← readExtraQuotes quote))

/-! ## Numbers -/

/-- Digits with single underscores between them, after a digit: the digits, and what is left. -/
def digitRun (isDigit : Char → Bool) : List Char → List Char × List Char
  | '_' :: c :: rest =>
    if isDigit c then
      let (digits, left) := digitRun isDigit rest
      (c :: digits, left)
    else ([], '_' :: c :: rest)
  | c :: rest =>
    if isDigit c then
      let (digits, left) := digitRun isDigit rest
      (c :: digits, left)
    else ([], c :: rest)
  | [] => ([], [])

/-- Digits with single underscores between them, at least one. -/
def digits? (isDigit : Char → Bool) : List Char → Option (List Char × List Char)
  | c :: rest =>
    if isDigit c then
      let (digits, left) := digitRun isDigit rest
      some (c :: digits, left)
    else none
  | [] => none

/-- A number as it is written: a whole number to some base, or a decimal with a sign. -/
inductive NumberSpelling
  | based (value : Nat)
  | whole (negative : Bool) (digits : List Char)
  | decimal (negative : Bool) (value : Decimal)

/-- The digits of base `2`, `8` and `16`. -/
def isDigitOf (base : Nat) (c : Char) : Bool :=
  match hexDigit? c with
  | some value => value < base
  | none => false

/-- A whole number to a base that is named by a letter after a zero. -/
def matchBased : List Char → Option (NumberSpelling × List Char)
  | '0' :: letter :: rest => do
    let base ←
      match letter with
      | 'x' => some 16
      | 'o' => some 8
      | 'b' => some 2
      | _ => none
    let (digits, left) ← digits? (isDigitOf base) rest
    let value := digits.foldl (fun n c => base * n + (hexDigit? c).getD 0) 0
    return (.based value, left)
  | _ => none

/-- The digits of the whole part of a decimal number: a zero alone, or no zero in front. -/
def wholePart? : List Char → Option (List Char × List Char)
  | '0' :: rest => some (['0'], rest)
  | cs => digits? Char.isDigit cs

/-- The fraction behind a whole part, empty where there is none. -/
def fractionPart (cs : List Char) : List Char × List Char :=
  match cs with
  | '.' :: rest => (digits? Char.isDigit rest).getD ([], cs)
  | _ => ([], cs)

/-- The exponent behind a number, if there is one. -/
def exponentPart? : List Char → Option (Int × List Char)
  | e :: rest =>
    if e = 'e' || e = 'E' then do
      let (negative, rest) := Numeral.splitSign rest
      let (digits, left) ← digits? Char.isDigit rest
      let value : Int := digitsValue digits
      return (if negative then -value else value, left)
    else none
  | [] => none

/-- A decimal number. -/
def matchDecimal (cs : List Char) : Option (NumberSpelling × List Char) := do
  let (negative, body) := Numeral.splitSign cs
  let (whole, afterWhole) ← wholePart? body
  let (fraction, afterFraction) := fractionPart afterWhole
  match exponentPart? afterFraction with
  | some (exponent, left) =>
    return (.decimal negative (Decimal.ofDigits whole fraction exponent), left)
  | none =>
    if fraction.isEmpty then return (.whole negative whole, afterFraction)
    else return (.decimal negative (Decimal.ofDigits whole fraction 0), afterFraction)

/-- A number, to a named base if it can be. -/
def matchNumber (cs : List Char) : Option (NumberSpelling × List Char) :=
  (matchBased cs).or (matchDecimal cs)

/-- A word for infinity or no number, with a sign or without one. -/
def matchSpecial (cs : List Char) : Option (Double × List Char) :=
  let (negative, body) := Numeral.splitSign cs
  let sign (d : Double) := if negative then d.neg else d
  if ['i', 'n', 'f'].isPrefixOf body then some (sign (.infinite false), body.drop 3)
  else if ['n', 'a', 'n'].isPrefixOf body then some (.nan, body.drop 3)
  else none

/-- The value of a number as it is written. A number to a named base may have any number of
    digits. -/
def NumberSpelling.value (host : Host) : NumberSpelling → Except Fault Value
  | .based value => .ok (.integer value)
  | .whole negative digits =>
    match host.readingFault? digits.length with
    | some fault => .error (.tooManyDigits fault)
    | none =>
      let value : Int := digitsValue digits
      .ok (.integer (if negative then -value else value))
  | .decimal negative value =>
    let magnitude := Double.ofDecimal value
    .ok (.float (if negative then magnitude.neg else magnitude))

/-! ## Moments -/

/-- Exactly `count` digits that spell a number between two others. -/
def matchField (count low high : Nat) (cs : List Char) : Option (Nat × List Char) :=
  let digits := cs.take count
  let value := digitsValue digits
  if digits.length = count && digits.all Char.isDigit && low ≤ value && value ≤ high then
    some (value, cs.drop count)
  else none

/-- A given character. -/
def matchChar (c : Char) : List Char → Option (List Char)
  | d :: rest => if c = d then some rest else none
  | [] => none

/-- A fraction of a second, to the microsecond; zero where there is none. -/
def matchMicros (cs : List Char) : Nat × List Char :=
  match cs with
  | '.' :: rest =>
    let digits := rest.takeWhile Char.isDigit
    if digits.isEmpty then (0, cs)
    else (digitsValue ((digits ++ List.replicate 6 '0').take 6), rest.drop digits.length)
  | _ => (0, cs)

/-- A time of the day. -/
def matchTime (cs : List Char) : Option (Time × List Char) := do
  let (hour, cs) ← matchField 2 0 23 cs
  let (minute, cs) ← matchField 2 0 59 (← matchChar ':' cs)
  let (second, cs) ← matchField 2 0 59 (← matchChar ':' cs)
  let (micros, cs) := matchMicros cs
  return (⟨hour, minute, second, micros⟩, cs)

/-- A day; whether the month has it is not looked at. -/
def matchDate (cs : List Char) : Option (Date × List Char) := do
  let (year, cs) ← matchField 4 0 9999 cs
  let (month, cs) ← matchField 2 1 12 (← matchChar '-' cs)
  let (day, cs) ← matchField 2 1 31 (← matchChar '-' cs)
  return (⟨year, month, day⟩, cs)

/-- An offset from universal time, in minutes. -/
def matchOffset (cs : List Char) : Option (Int × List Char) :=
  match cs with
  | 'Z' :: rest | 'z' :: rest => some (0, rest)
  | sign :: rest =>
    if sign = '+' || sign = '-' then do
      let (hour, cs) ← matchField 2 0 23 rest
      let (minute, cs) ← matchField 2 0 59 (← matchChar ':' cs)
      let minutes : Int := 60 * hour + minute
      return (if sign = '-' then -minutes else minutes, cs)
    else none
  | [] => none

/-- A day, with a time of the day behind a space or the letter T if there is one. -/
def matchDateTime (cs : List Char) : Option (Moment × List Char) := do
  let (date, afterDate) ← matchDate cs
  let timed : Option (Moment × List Char) :=
    match afterDate with
    | separator :: rest =>
      if separator = 'T' || separator = 't' || separator = ' ' then do
        let (time, afterTime) ← matchTime rest
        match matchOffset afterTime with
        | some (minutes, left) => return (.dateTime date time (some minutes), left)
        | none => return (.dateTime date time none, afterTime)
      else none
    | [] => none
  return timed.getD (.date date, afterDate)

/-- Is the day of a moment in the calendar? -/
def Moment.isValid : Moment → Bool
  | .date d => d.isValid
  | .time _ => true
  | .dateTime d _ _ => d.isValid

end LoxSyntax.Toml
