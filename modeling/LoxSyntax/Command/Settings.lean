import LoxSyntax.Command.Arguments
import LoxSyntax.Command.Path
import LoxSyntax.Toml.Document
set_option autoImplicit false

/-! # Settings

What a run does is settled by its arguments and a configuration. The table `output` of the
configuration may name a format and say whether the end of the input is listed; an argument wins
over it. A format that does not exist is refused wherever it is named, the one of the configuration
first. -/

namespace LoxSyntax

/-- How expressions are written. -/
inductive OutputFormat
  /-- Each expression in prefix form on a line of its own. -/
  | prefixForm
  /-- An outline of all expressions. -/
  | outline
  deriving DecidableEq, Repr

namespace OutputFormat

/-- All formats. -/
def all : List OutputFormat := [.prefixForm, .outline]

/-- The name of a format. -/
def name : OutputFormat → String
  | prefixForm => "sexpr"
  | outline => "tree"

/-- The format with a name. -/
def ofName? (name : String) : Option OutputFormat :=
  all.find? fun format => format.name = name

end OutputFormat

/-- Why a run has no settings. -/
inductive SettingFault
  /-- There is no format of that name. -/
  | unknownFormat (name : String)
  /-- The name of the format cannot be written. -/
  | unwritableFormat (fault : Host.ShowFault)
  deriving DecidableEq

/-- The words for a format that does not exist. -/
def unknownFormatMessage (name : String) : String :=
  let names := ", ".intercalate (OutputFormat.all.map OutputFormat.name)
  s!"invalid format (expected one of {names}): {name}"

/-- What a run does. -/
structure Settings where
  input : Path
  output : Option Path
  tokens : Bool
  format : OutputFormat
  showEnd : Bool
  debug : Bool
  deriving DecidableEq

/-- The format with the given name. -/
def readFormat (name : String) : Except SettingFault OutputFormat :=
  match OutputFormat.ofName? name with
  | some format => .ok format
  | none => .error (.unknownFormat name)

/-- A path in an argument; an empty one is as good as none. -/
def argumentPath? (argument : Option String) : Option Path :=
  match argument with
  | none => none
  | some text => if text.isEmpty then none else some (Path.ofString text)

namespace Arguments

/-- The path of the input. -/
def inputPath (a : Arguments) : Path := Path.ofString a.input

/-- The path of the configuration: the one that was given, or that of the file that is looked for in
    the directory of the input. -/
def configPath (a : Arguments) : Path :=
  (argumentPath? a.config).getD (a.inputPath.parent.child "loxfront.toml")

end Arguments

namespace Toml.Table

/-- The entries of the table `output`, none if there is no such table. -/
def outputEntries (config : Table) : Table :=
  match config.lookup "output" with
  | some (.table entries) => entries
  | _ => []

/-- The format that a configuration names: the text of whatever value it has. -/
def format? (host : Host) (config : Table) : Except SettingFault (Option OutputFormat) :=
  match config.outputEntries.lookup "format" with
  | none => .ok none
  | some value => do
    let name ← (host.textOf value).mapError .unwritableFormat
    return some (← readFormat name)

/-- Does the configuration ask for the end of the input? Only a truth value counts. -/
def showsEnd (config : Table) : Bool :=
  match config.outputEntries.lookup "show_eof" with
  | some (.truth value) => value
  | _ => false

end Toml.Table

/-- The settings that arguments and a configuration make. -/
def Settings.of (host : Host) (a : Arguments) (config : Toml.Table) :
    Except SettingFault Settings := do
  let configured ← config.format? host
  let given ← a.format.mapM readFormat
  return {
    input := a.inputPath
    output := argumentPath? a.output
    tokens := a.tokens
    format := (given.or configured).getD .prefixForm
    showEnd := a.showEnd || config.showsEnd
    debug := a.debug }

end LoxSyntax
