import LoxSyntax.Number.Shortest
import LoxSyntax.Text.Quoted
set_option autoImplicit false

/-! # Values of a configuration

The values that a TOML document can give to a key, and how they read in a message. A text stands
for itself on its own and is quoted inside an array or a table; dates and times follow ISO 8601 on
their own and name their fields inside one. -/

namespace LoxSyntax.Toml

/-- A day of the calendar. -/
structure Date where
  year : Nat
  month : Nat
  day : Nat
  deriving DecidableEq, Repr

/-- A time of the day, to the microsecond. -/
structure Time where
  hour : Nat
  minute : Nat
  second : Nat
  micros : Nat
  deriving DecidableEq, Repr

/-- A date, a time or both; both may come with an offset from universal time in minutes. -/
inductive Moment
  | date (date : Date)
  | time (time : Time)
  | dateTime (date : Date) (time : Time) (offset : Option Int)
  deriving DecidableEq, Repr

/-- The value of a key. -/
inductive Value
  | text (value : String)
  | integer (value : Int)
  | float (value : Double)
  | truth (value : Bool)
  | moment (value : Moment)
  | array (items : List Value)
  | table (entries : List (String × Value))

/-- The keys of a table with their values, in the order in which they were given. -/
abbrev Table := List (String × Value)

/-! ## Dates -/

/-- The days of a month. -/
def daysOfMonth (year month : Nat) : Nat :=
  if month = 2 then
    if year % 4 = 0 && (year % 100 ≠ 0 || year % 400 = 0) then 29 else 28
  else if [4, 6, 9, 11].contains month then 30
  else 31

/-- Is the day in the calendar, which begins with the year one? -/
def Date.isValid (d : Date) : Bool :=
  1 ≤ d.year && 1 ≤ d.month && d.month ≤ 12 && 1 ≤ d.day && d.day ≤ daysOfMonth d.year d.month

/-- A number with at least `width` digits. -/
def padded (width n : Nat) : String :=
  let digits := Nat.toDigits 10 n
  String.ofList (List.replicate (width - digits.length) '0' ++ digits)

/-- Year, month and day with hyphens between them. -/
def Date.display (d : Date) : String :=
  s!"{padded 4 d.year}-{padded 2 d.month}-{padded 2 d.day}"

/-- Hours, minutes and seconds with colons between them, and a fraction if there is one. -/
def Time.display (t : Time) : String :=
  let clock := s!"{padded 2 t.hour}:{padded 2 t.minute}:{padded 2 t.second}"
  if t.micros = 0 then clock else s!"{clock}.{padded 6 t.micros}"

/-- An offset as a sign, hours and minutes. -/
def offsetDisplay (minutes : Int) : String :=
  let sign := if minutes < 0 then "-" else "+"
  s!"{sign}{padded 2 (minutes.natAbs / 60)}:{padded 2 (minutes.natAbs % 60)}"

/-- A moment on its own. -/
def Moment.display : Moment → String
  | date d => d.display
  | time t => t.display
  | dateTime d t none => s!"{d.display} {t.display}"
  | dateTime d t (some minutes) => s!"{d.display} {t.display}{offsetDisplay minutes}"

/-- The fields of a time, without seconds and microseconds where they are zero. -/
def Time.fields (t : Time) : List Nat :=
  if t.micros ≠ 0 then [t.hour, t.minute, t.second, t.micros]
  else if t.second ≠ 0 then [t.hour, t.minute, t.second]
  else [t.hour, t.minute]

/-- The fields of a date. -/
def Date.fields (d : Date) : List Nat := [d.year, d.month, d.day]

/-- An offset as whole days and the seconds after them, days only where the offset is negative. -/
def offsetFields (minutes : Int) : String :=
  if minutes = 0 then "datetime.timezone.utc"
  else if minutes < 0 then
    s!"datetime.timezone(datetime.timedelta(days=-1, seconds={86400 + 60 * minutes}))"
  else s!"datetime.timezone(datetime.timedelta(seconds={60 * minutes}))"

/-- Numbers with commas between them. -/
def numberList (fields : List Nat) : String :=
  ", ".intercalate (fields.map toString)

/-- A moment inside an array or a table. -/
def Moment.literal : Moment → String
  | date d => s!"datetime.date({numberList d.fields})"
  | time t => s!"datetime.time({numberList t.fields})"
  | dateTime d t none => s!"datetime.datetime({numberList (d.fields ++ t.fields)})"
  | dateTime d t (some minutes) =>
    s!"datetime.datetime({numberList (d.fields ++ t.fields)}, tzinfo={offsetFields minutes})"

/-! ## Values -/

/-- A truth value in a message. -/
def truthText (value : Bool) : String := if value then "True" else "False"

mutual

/-- A value inside an array or a table. -/
def Value.literal : Value → String
  | .text value => quoted value
  | .integer value => toString value
  | .float value => value.shortest
  | .truth value => truthText value
  | .moment value => value.literal
  | .array items => "[" ++ ", ".intercalate (itemLiterals items) ++ "]"
  | .table entries => "\x7b" ++ ", ".intercalate (entryLiterals entries) ++ "\x7d"

/-- The items of an array. -/
def itemLiterals : List Value → List String
  | [] => []
  | value :: values => value.literal :: itemLiterals values

/-- The entries of a table. -/
def entryLiterals : List (String × Value) → List String
  | [] => []
  | (key, value) :: entries => (quoted key ++ ": " ++ value.literal) :: entryLiterals entries

end

/-- A value on its own. -/
def Value.display : Value → String
  | .text value => value
  | .moment value => value.display
  | value => value.literal

end LoxSyntax.Toml
