import LoxSyntax.Expr.Basic
import LoxSyntax.Toml.Value
set_option autoImplicit false

/-! # Hosts

What the program does depends on the host that carries it out, apart from files and arguments.
A whole number with very many digits may not be turned into a text, nor a text into one. A recursion
that goes too deep exhausts the stack; how deep that is depends on all that is being carried out, so
that a host says for each step of a recursion whether there is room for it. And the reader of
arguments may take two dashes out of the value of an option, as older ones do. Nothing is assumed of
a host: the program is defined, and what it does is stated, for each of them. -/

namespace LoxSyntax

/-- What a program can rely on when it is run. -/
structure Host where
  /-- How many digits a whole number may have that is turned into a text or read from one; `none`
      where all may be. -/
  digitLimit : Option Nat
  /-- Is there room for the prefix form of a node, at its depth in an expression? -/
  prefixRoom : Nat → Expr → Bool
  /-- Is there room for the row of a node in an outline, at its depth in an expression? -/
  outlineRoom : Nat → Expr → Bool
  /-- Is there room for reading a value inside so many arrays and so many inline tables of a
      configuration, from the given text on? -/
  readRoom : Nat → Nat → List Char → Bool
  /-- Is there room for the text of a value, at its depth in the value of a key? -/
  textRoom : Nat → Toml.Value → Bool
  /-- Are two dashes taken out of the value of an option? -/
  dropsDashes : Bool

/-- The recursions that may exhaust the stack. -/
inductive Recursion
  /-- Printing an expression. -/
  | printing
  /-- Reading a value of a configuration. -/
  | reading
  /-- Turning a value of a configuration into a text. -/
  | showing
  deriving DecidableEq, Repr

/-- The words for a recursion that has exhausted the stack. -/
def Recursion.message : Recursion → String
  | .printing | .reading => "maximum recursion depth exceeded"
  | .showing => "maximum recursion depth exceeded while getting the repr of an object"

namespace Host

/-- A host with a limit on digits and a limit on the levels of each recursion. An outline begins
    one level further down than a prefix form; a value in an array takes two levels, and one in an
    inline table three. -/
def withLimits (digits levels : Nat) (dropsDashes : Bool) : Host where
  digitLimit := some digits
  prefixRoom depth _ := depth < levels
  outlineRoom depth _ := depth + 1 < levels
  readRoom arrays tables _ := 2 * arrays + 3 * tables < levels
  textRoom depth _ := depth < levels
  dropsDashes

/-- The limits that hold unless others are set: the command leaves 985 of a thousand levels. -/
def standard : Host := withLimits 4300 985 true

/-! ## Digits -/

/-- Why a text cannot be turned into a whole number, or a whole number into a text. -/
structure DigitFault where
  limit : Nat
  /-- How many digits there are, where they have been counted. -/
  count? : Option Nat
  deriving DecidableEq

/-- The words for too many digits. -/
def DigitFault.message (f : DigitFault) : String :=
  let hint := "use sys.set_int_max_str_digits() to increase the limit"
  match f.count? with
  | some count =>
    s!"Exceeds the limit ({f.limit} digits) for integer string conversion: " ++
      s!"value has {count} digits; " ++ hint
  | none => s!"Exceeds the limit ({f.limit} digits) for integer string conversion; " ++ hint

/-- What is wrong with a text of so many digits, if anything. -/
def readingFault? (host : Host) (count : Nat) : Option DigitFault :=
  host.digitLimit.bind fun limit => if limit < count then some ⟨limit, some count⟩ else none

/-- What keeps a whole number from being written, if anything. -/
def writingFault? (host : Host) (n : Int) : Option DigitFault :=
  host.digitLimit.bind fun limit => if Nat.pow 10 limit ≤ n.natAbs then some ⟨limit, none⟩ else none

/-! ## Texts of values -/

/-- Why a value has no text. -/
inductive ShowFault
  | digits (fault : DigitFault)
  | stackExhausted
  deriving DecidableEq

/-- What is wrong with a step of a recursion: its own fault, if there is room for it. -/
def within (room : Bool) (fault? : Option ShowFault) : Option ShowFault :=
  if room then fault? else some .stackExhausted

mutual

/-- What keeps the text of a value from being made, if anything: the first thing that does, the
    items of a value being gone through in their order. -/
def showFault? (host : Host) (depth : Nat) : Toml.Value → Option ShowFault
  | .integer n =>
    within (host.textRoom depth (.integer n)) ((host.writingFault? n).map .digits)
  | .array items =>
    within (host.textRoom depth (.array items)) (host.itemsFault? (depth + 1) items)
  | .table entries =>
    within (host.textRoom depth (.table entries)) (host.entriesFault? (depth + 1) entries)
  | value => within (host.textRoom depth value) none

/-- What keeps the texts of the items of an array from being made. -/
def itemsFault? (host : Host) (depth : Nat) : List Toml.Value → Option ShowFault
  | [] => none
  | value :: values => (host.showFault? depth value).or (host.itemsFault? depth values)

/-- What keeps the texts of the entries of a table from being made. -/
def entriesFault? (host : Host) (depth : Nat) : List (String × Toml.Value) → Option ShowFault
  | [] => none
  | (_, value) :: entries => (host.showFault? depth value).or (host.entriesFault? depth entries)

end

/-- The text of a value on its own, or what keeps it from being made. A text is its own. -/
def textOf (host : Host) (value : Toml.Value) : Except ShowFault String :=
  match value with
  | .text text => .ok text
  | value =>
    match host.showFault? 0 value with
    | some fault => .error fault
    | none => .ok value.display

end Host

end LoxSyntax
