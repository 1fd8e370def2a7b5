import LoxSyntax.Host
import LoxSyntax.Text.CharClass
set_option autoImplicit false

/-! # Arguments of the command

The command takes one input and some options. A long option may be shortened as long as it remains
the only one with that beginning, and may have its value behind an equals sign; a short option may
have its value right behind its letter or behind an equals sign, and the letter of an option without
a value may be followed by further letters in the same way. A text that looks like a negative number
or holds a space is no option, and neither is anything behind two dashes on their own. Two dashes
that stand in one argument with an option are its value, but some hosts leave the option without
one then. -/

namespace LoxSyntax

/-- The options of the command. -/
inductive Switch
  | help | output | tokens | format | showEnd | config | debug
  deriving DecidableEq, Repr

namespace Switch

/-- All options, in the order in which they are listed. -/
def all : List Switch := [.help, .output, .tokens, .format, .showEnd, .config, .debug]

/-- The letter of an option, if it has one. -/
def letter? : Switch → Option Char
  | help => some 'h'
  | output => some 'o'
  | _ => none

/-- The long name of an option. -/
def longName : Switch → String
  | help => "--help"
  | output => "--output"
  | tokens => "--tokens"
  | format => "--format"
  | showEnd => "--show-eof"
  | config => "--config"
  | debug => "--debug"

/-- Does the option have a value? -/
def takesValue : Switch → Bool
  | output | format | config => true
  | _ => false

/-- All names of an option. -/
def label (s : Switch) : String :=
  match s.letter? with
  | some letter => s!"-{letter}/{s.longName}"
  | none => s.longName

/-- The option with a letter. -/
def ofLetter? (letter : Char) : Option Switch :=
  all.find? fun s => s.letter? = some letter

end Switch

/-- Why arguments are refused. -/
inductive ArgumentFault
  /-- An option comes without its value. -/
  | missingValue (option : Switch)
  /-- An option that has no value was given one. -/
  | ignoredValue (option : Switch) (value : String)
  /-- A shortened option could be any of several. -/
  | ambiguous (text : String) (options : List Switch)
  | missingInput
  /-- Some arguments mean nothing. -/
  | unrecognized (arguments : List String)
  deriving DecidableEq

/-- The words for a refusal. -/
def ArgumentFault.message : ArgumentFault → String
  | .missingValue option => s!"argument {option.label}: expected one argument"
  | .ignoredValue option value =>
    s!"argument {option.label}: ignored explicit argument {quoted value}"
  | .ambiguous text options =>
    let names := ", ".intercalate (options.map Switch.longName)
    s!"ambiguous option: {text} could match {names}"
  | .missingInput => "the following arguments are required: input"
  | .unrecognized arguments => "unrecognized arguments: " ++ " ".intercalate arguments

/-- What the arguments say. -/
structure Arguments where
  input : String
  output : Option String := none
  tokens : Bool := false
  format : Option String := none
  showEnd : Bool := false
  config : Option String := none
  debug : Bool := false
  deriving DecidableEq

/-- Why there is nothing to run: help was asked for, or the arguments are refused. -/
inductive Refusal
  | help
  | fault (fault : ArgumentFault)
  deriving DecidableEq

/-! ## Looking at one argument -/

/-- What an argument is, looked at on its own. -/
inductive ArgumentWord
  /-- The input or the value of an option. -/
  | plain (text : String)
  /-- An option under its long name, with the value behind an equals sign. -/
  | long (option : Switch) (value : Option String)
  /-- An option under its letter, with what stands behind the letter. -/
  | short (option : Switch) (behind : List Char)
  /-- It looks like an option and is none. -/
  | unknown (text : String)
  /-- Two dashes on their own. -/
  | dashes
  deriving DecidableEq

/-- A text split at its first equals sign. -/
def splitEquals (cs : List Char) : List Char × Option (List Char) :=
  match cs.dropWhile (· ≠ '=') with
  | [] => (cs, none)
  | _ :: value => (cs.takeWhile (· ≠ '='), some value)

/-- Is the text a minus sign and a number? A line feed may follow it. -/
def looksNegative (cs : List Char) : Bool :=
  match cs with
  | '-' :: rest =>
    let isDigit (c : Char) : Bool := (decimalDigit? c).isSome
    let afterWhole := rest.dropWhile isDigit
    let isEnd (tail : List Char) : Bool := tail = [] || tail = ['\n']
    let isWhole := afterWhole.length < rest.length && isEnd afterWhole
    match afterWhole with
    | '.' :: fraction =>
      let afterFraction := fraction.dropWhile isDigit
      isWhole || (afterFraction.length < fraction.length && isEnd afterFraction)
    | _ => isWhole
  | _ => false

/-- A text with a dash in front that names no option. -/
def otherWord (text : String) : ArgumentWord :=
  if looksNegative text.toList || text.toList.contains ' ' then .plain text else .unknown text

/-- The options whose long names begin with a text; the one of that very name comes alone. -/
def longMatches (beginning : List Char) : List Switch :=
  match Switch.all.find? (·.longName.toList = beginning) with
  | some option => [option]
  | none => Switch.all.filter (beginning.isPrefixOf ·.longName.toList)

/-- An argument that begins with two dashes. -/
def longWord (text : String) : Except ArgumentFault ArgumentWord :=
  let (beginning, value) := splitEquals text.toList
  match longMatches beginning with
  | [] => .ok (otherWord text)
  | [option] => .ok (.long option (value.map String.ofList))
  | options => .error (.ambiguous text options)

/-- What an argument is. -/
def ArgumentWord.of (text : String) : Except ArgumentFault ArgumentWord :=
  match text.toList with
  | ['-', '-'] => .ok .dashes
  | '-' :: '-' :: _ => longWord text
  | '-' :: letter :: behind =>
    match Switch.ofLetter? letter with
    | some option => .ok (.short option behind)
    | none => .ok (otherWord text)
  | _ => .ok (.plain text)

/-- What the arguments are; behind two dashes on their own all are plain. -/
def argumentWords : List String → Except ArgumentFault (List ArgumentWord)
  | [] => .ok []
  | text :: texts => do
    match ← ArgumentWord.of text with
    | .dashes => return .dashes :: texts.map .plain
    | word => return word :: (← argumentWords texts)

/-! ## Letters -/

/-- What an option under its letter comes to. -/
inductive ShortReading
  /-- The options that were named, each without a value. -/
  | options (named : List Switch)
  /-- The options before the last one, and the last one with its value. -/
  | withValue (named : List Switch) (last : Switch) (value : String)
  /-- The options before the last one, which takes the next argument as its value. -/
  | needsValue (named : List Switch) (last : Switch)
  | fault (fault : ArgumentFault)
  deriving DecidableEq

/-- One more option in front. -/
def ShortReading.after (option : Switch) : ShortReading → ShortReading
  | options named => options (option :: named)
  | withValue named last value => withValue (option :: named) last value
  | needsValue named last => needsValue (option :: named) last
  | fault f => fault f

/-- Reads what stands behind the letter of an option: its value, or further letters. Without a value
    to take, all that is left has to be letters of options. -/
def readLetters (option : Switch) : List Char → ShortReading
  | [] => if option.takesValue then .needsValue [] option else .options [option]
  | c :: behind =>
    if option.takesValue then .withValue [] option (String.ofList (c :: behind))
    else
      match Switch.ofLetter? c with
      | some next => (readLetters next behind).after option
      | none => .fault (.ignoredValue option (String.ofList (c :: behind)))

/-- Reads what stands behind the first letter of an argument. An equals sign right behind that
    letter is dropped; where nothing follows it, an empty value was given. -/
def readShort (option : Switch) : List Char → ShortReading
  | ['='] =>
    if option.takesValue then .withValue [] option "" else .fault (.ignoredValue option "")
  | '=' :: behind => readLetters option behind
  | behind => readLetters option behind

/-! ## Going through the arguments -/

/-- The arguments that have been gone through. -/
structure ArgumentDraft where
  input : Option String := none
  /-- Do two dashes that come now belong to the input? -/
  atInput : Bool := false
  given : Arguments := { input := "" }
  unrecognized : List String := []

namespace ArgumentDraft

/-- Takes up an option without a value. -/
def setFlag (d : ArgumentDraft) (option : Switch) : Except Refusal ArgumentDraft :=
  let d := { d with atInput := false }
  match option with
  | .help => .error .help
  | .tokens => .ok { d with given := { d.given with tokens := true } }
  | .showEnd => .ok { d with given := { d.given with showEnd := true } }
  | .debug => .ok { d with given := { d.given with debug := true } }
  | _ => .ok d

/-- Takes up an option with its value. Some hosts take two dashes out of the value, which leaves
    none: no output and no configuration are named then, and a format by the text of an empty
    list. -/
def setValue (host : Host) (d : ArgumentDraft) (option : Switch) (value : String) :
    ArgumentDraft :=
  let d := { d with atInput := false }
  let left : Option String := if host.dropsDashes && value = "--" then none else some value
  match option with
  | .output => { d with given := { d.given with output := left } }
  | .format => { d with given := { d.given with format := some (left.getD "[]") } }
  | .config => { d with given := { d.given with config := left } }
  | _ => d

/-- Takes up several options without values. -/
def setFlags (d : ArgumentDraft) (options : List Switch) : Except Refusal ArgumentDraft :=
  options.foldlM setFlag d

/-- Takes up the input, or one argument too many. -/
def addPlain (d : ArgumentDraft) (text : String) : ArgumentDraft :=
  match d.input with
  | none => { d with input := some text, atInput := true }
  | some _ => { d with unrecognized := d.unrecognized ++ [text], atInput := false }

/-- Takes up an argument that means nothing. -/
def addUnrecognized (d : ArgumentDraft) (text : String) : ArgumentDraft :=
  { d with unrecognized := d.unrecognized ++ [text], atInput := false }

/-- Takes up two dashes on their own, which mean nothing unless the input stands next to them. -/
def addDashes (d : ArgumentDraft) (inputFollows : Bool) : ArgumentDraft :=
  if d.atInput || (d.input.isNone && inputFollows) then { d with atInput := false }
  else d.addUnrecognized "--"

/-- The arguments, once all have been gone through. -/
def finish (d : ArgumentDraft) : Except Refusal Arguments :=
  match d.input, d.unrecognized with
  | none, _ => .error (.fault .missingInput)
  | some input, [] => .ok { d.given with input }
  | some _, unrecognized => .error (.fault (.unrecognized unrecognized))

end ArgumentDraft

/-- Goes through what the arguments are. -/
def readArguments (host : Host) (d : ArgumentDraft) :
    List ArgumentWord → Except Refusal ArgumentDraft
  | [] => .ok d
  | .plain text :: words => readArguments host (d.addPlain text) words
  | .unknown text :: words => readArguments host (d.addUnrecognized text) words
  | .dashes :: words => readArguments host (d.addDashes !words.isEmpty) words
  | .long option (some value) :: words =>
    if option.takesValue then readArguments host (d.setValue host option value) words
    else .error (.fault (.ignoredValue option value))
  | .long option none :: .plain value :: words => do
    if option.takesValue then readArguments host (d.setValue host option value) words
    else readArguments host ((← d.setFlag option).addPlain value) words
  | .long option none :: words => do
    if option.takesValue then .error (.fault (.missingValue option))
    else readArguments host (← d.setFlag option) words
  | .short option behind :: .plain value :: words => do
    match readShort option behind with
    | .fault f => .error (.fault f)
    | .options named => readArguments host ((← d.setFlags named).addPlain value) words
    | .withValue named last text =>
      readArguments host (((← d.setFlags named).setValue host last text).addPlain value) words
    | .needsValue named last =>
      readArguments host ((← d.setFlags named).setValue host last value) words
  | .short option behind :: words => do
    match readShort option behind with
    | .fault f => .error (.fault f)
    | .options named => readArguments host (← d.setFlags named) words
    | .withValue named last text =>
      readArguments host ((← d.setFlags named).setValue host last text) words
    | .needsValue _ last => .error (.fault (.missingValue last))

/-- What the arguments say, or why there is nothing to run. All arguments are looked at on their own
    before any is taken up. -/
def Arguments.ofList (host : Host) (texts : List String) : Except Refusal Arguments := do
  let words ← (argumentWords texts).mapError .fault
  (← readArguments host {} words).finish

end LoxSyntax
