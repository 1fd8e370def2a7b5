import LoxSyntax.Command.Files
import LoxSyntax.Command.Settings
import LoxSyntax.Command.Usage
import LoxSyntax.Diagnostic.Source
import LoxSyntax.Expr.Printing
import LoxSyntax.Text.Utf8
set_option autoImplicit false

/-! # Running the command

A run reads a configuration and an input, and shows or writes the tokens or the expressions of the
input. Faults in the input and bad settings are told, and end the run with a number other than zero.
Some faults end it without one: bytes that are no text, a file that cannot be written or may not
even be looked for, and whatever the host has no room for. -/

namespace LoxSyntax

/-- What ends a run without an exit number. -/
inductive Crash
  | undecodable (fault : Utf8.Fault)
  | access (fault : AccessFault) (path : Path)
  | tooManyDigits (fault : Host.DigitFault)
  | stackExhausted (recursion : Recursion)
  /-- An operator has no spelling that could be printed. -/
  | noSymbol (kind : TokenKind)
  deriving DecidableEq

/-- A crash in words. -/
def Crash.message : Crash → String
  | .undecodable fault => fault.message
  | .access .embeddedNul _ => AccessFault.embeddedNul.reason
  | .access fault path => s!"[Errno {fault.code}] {fault.reason}: {quoted path.text}"
  | .tooManyDigits fault => fault.message
  | .stackExhausted recursion => recursion.message
  | .noSymbol kind => kind.tag

/-- What an expression that cannot be printed ends a run with. -/
def Crash.ofPrintFault : PrintFault (CutLeaf Empty) → Crash
  | .noSymbol kind => .noSymbol kind
  | .foreign .cutOff => .stackExhausted .printing

/-- What a value of a configuration that has no text ends a run with. -/
def Crash.ofShowFault : Host.ShowFault → Crash
  | .digits fault => .tooManyDigits fault
  | .stackExhausted => .stackExhausted .showing

/-- How a run ends. -/
inductive Ending
  /-- The work was done, or it could not be and was told why. -/
  | finished (code : Nat)
  /-- The arguments were answered and nothing was run. -/
  | answered (code : Nat)
  | crashed (crash : Crash)
  deriving DecidableEq

/-- How a run ended and what it printed. -/
structure RunResult where
  ending : Ending
  stdout : String := ""
  stderr : String := ""
  deriving DecidableEq

/-- Why a run has no settings, apart from its arguments. -/
inductive SetupFault
  /-- The settings are wrong, for the reason given. -/
  | refused (message : String)
  | crashed (crash : Crash)
  deriving DecidableEq

/-- The text of an input: its bytes decoded, and every line ended by a line feed. -/
def inputText (bytes : Bytes) : Except Utf8.Fault String :=
  (Utf8.decode bytes).map fun cs => String.ofList (unifyLineEnds cs)

/-- What a configuration that cannot be read means for a run. -/
def SetupFault.ofDocument : Toml.Fault → SetupFault
  | .malformed problem place =>
    .refused s!"invalid config file: {(Toml.Fault.malformed problem place).message}"
  | .tooManyDigits fault => .crashed (.tooManyDigits fault)
  | .stackExhausted => .crashed (.stackExhausted .reading)

/-- The configuration that a file holds. -/
def readConfig (host : Host) (bytes : Bytes) : Except SetupFault Toml.Table := do
  let text ← (Utf8.decode bytes).mapError (.crashed <| .undecodable ·)
  (Toml.readDocument host text).mapError .ofDocument

/-- The settings that arguments and a configuration make. -/
def settle (host : Host) (a : Arguments) (config : Toml.Table) : Except SetupFault Settings :=
  (Settings.of host a config).mapError fun
    | .unknownFormat name => .refused (unknownFormatMessage name)
    | .unwritableFormat fault => .crashed (.ofShowFault fault)

/-- What the tokens of a text look like, with or without the end of the input. -/
def tokenReport (showEnd : Bool) (tokens : List Token) : String :=
  Token.listing (if showEnd then tokens else tokens.filter (!·.isEnd))

/-- The prefix form of an expression on a line. -/
def prefixLine (host : Host) (e : Expr) : Except (PrintFault (CutLeaf Empty)) String := do
  return (← e.prefixFormWithin host.prefixRoom) ++ "\n"

/-- What expressions look like in a format. -/
def exprReport (host : Host) (format : OutputFormat) (es : List Expr) :
    Except (PrintFault (CutLeaf Empty)) String :=
  match format with
  | .prefixForm => do return String.join (← es.mapM (prefixLine host))
  | .outline => (Tree.outlineWithin host.outlineRoom es).complete

/-- What a run shows: its result, if it can be printed, and the outline that debugging adds, as far
    as it was written. -/
structure Inspection where
  result : Except (PrintFault (CutLeaf Empty)) String
  debugText : String := ""

/-- What a run shows of expressions. The result is not made unless the outline that debugging adds
    is complete. -/
def inspectExprs (host : Host) (s : Settings) (es : List Expr) : Inspection :=
  if s.debug then
    let outline := Tree.outlineWithin host.outlineRoom es
    { result := do
        let _ ← outline.complete
        exprReport host s.format es
      debugText := outline.text }
  else { result := exprReport host s.format es }

/-- What a run shows of an input. Nothing is parsed when tokens are asked for. -/
def inspect (host : Host) (s : Settings) (source : String) : Except Diagnostic Inspection := do
  let filename := s.input.text
  let tokens ← scanSource source filename
  if s.tokens then return { result := .ok (tokenReport s.showEnd tokens) }
  let es ← parseFrom tokens source filename
  return inspectExprs host s es

section Files

variable {m : Type → Type} [Monad m] [FileAccess m]

/-- The content of a file; a path that cannot name one is not looked for. -/
def readFile (p : Path) : m (Except AccessFault Bytes) :=
  if p.text.toList.contains '\x00' then return .error .embeddedNul else FileAccess.read p

/-- Gives a file new content; a path that cannot name one is not looked for. -/
def writeFile (p : Path) (content : Bytes) : m (Except AccessFault Unit) :=
  if p.text.toList.contains '\x00' then return .error .embeddedNul
  else FileAccess.write p content

/-- The configuration of a run: an empty one where there is no such file. -/
def loadConfig (host : Host) (p : Path) : m (Except SetupFault Toml.Table) := do
  match ← readFile p with
  | .ok bytes => return readConfig host bytes
  | .error .notFound | .error .notDirectory | .error .isDirectory | .error .embeddedNul =>
    return .ok []
  | .error fault => return .error (.crashed (.access fault p))

/-- The settings of a run. -/
def loadSettings (host : Host) (a : Arguments) : m (Except SetupFault Settings) := do
  return (← loadConfig host a.configPath) >>= settle host a

/-- Shows the result of a run, or writes it to a file. -/
def deliver (s : Settings) (i : Inspection) : m RunResult := do
  match i.result, s.output with
  | .error fault, _ =>
    return { ending := .crashed (.ofPrintFault fault), stderr := i.debugText }
  | .ok text, none => return { ending := .finished 0, stdout := text, stderr := i.debugText }
  | .ok text, some p =>
    match ← writeFile p (Utf8.encode text) with
    | .ok () => return { ending := .finished 0, stderr := i.debugText }
    | .error fault => return { ending := .crashed (.access fault p), stderr := i.debugText }

/-- A run with given settings. -/
def runWith (host : Host) (s : Settings) : m RunResult := do
  match ← readFile s.input with
  | .error .embeddedNul => return { ending := .crashed (.access .embeddedNul s.input) }
  | .error fault =>
    return {
      ending := .finished 2
      stderr := s!"error: cannot read {s.input.text}: {fault.reason}\n" }
  | .ok bytes =>
    match inputText bytes with
    | .error fault => return { ending := .crashed (.undecodable fault) }
    | .ok source =>
      match inspect host s source with
      | .error d => return { ending := .finished 1, stderr := d.report ++ "\n" }
      | .ok i => deliver s i

/-- A run with given arguments. -/
def runArguments (host : Host) (a : Arguments) : m RunResult := do
  match ← loadSettings host a with
  | .error (.refused message) =>
    return { ending := .finished 2, stderr := s!"error: {message}\n" }
  | .error (.crashed crash) => return { ending := .crashed crash }
  | .ok s => runWith host s

/-- A run of the command. -/
def runCommand (host : Host) (texts : List String) : m RunResult := do
  match Arguments.ofList host texts with
  | .ok a => runArguments host a
  | .error .help => return { ending := .answered 0, stdout := helpText }
  | .error (.fault fault) => return { ending := .answered 2, stderr := refusalText fault }

end Files

end LoxSyntax
