import LoxSyntax.Text.Line
import LoxSyntax.Toml.Scalar
set_option autoImplicit false

/-! # Documents of a configuration

A document is a list of statements: headers that open a table or add one to an array of tables, and
keys with their values. Besides the tables themselves the reader keeps what has been declared: the
tables that may not be opened again, and the values that may not be added to. -/

namespace LoxSyntax.Toml

/-! ## Tables -/

/-- Gives a key of a table a new value, in its old place if it has one. -/
def Table.set (key : String) (value : Value) : Table → Table
  | [] => [(key, value)]
  | (other, old) :: entries =>
    if other = key then (key, value) :: entries else (other, old) :: Table.set key value entries

/-- Changes the table at a path, tables on the way being made where there are none. An array of
    tables stands for its last one if `throughArrays`. -/
def Table.change (throughArrays : Bool) (f : Table → Except Problem Table) :
    Key → Table → Except Problem Table
  | [], t => f t
  | part :: path, t =>
    match t.lookup part with
    | none => do return t.set part (.table (← Table.change throughArrays f path []))
    | some (.table inner) => do
      return t.set part (.table (← Table.change throughArrays f path inner))
    | some (.array items) =>
      match throughArrays, items.getLast? with
      | true, some (.table inner) => do
        let inner ← Table.change throughArrays f path inner
        return t.set part (.array (items.dropLast ++ [.table inner]))
      | _, _ => .error .overwritten
    | some _ => .error .overwritten

/-- Adds a key that is not there yet. -/
def Table.add (key : String) (value : Value) (taken : Problem) (t : Table) :
    Except Problem Table :=
  match t.lookup key with
  | some _ => .error taken
  | none => .ok (t.set key value)

/-- Adds an empty table to the array of tables under a key. -/
def Table.append (key : String) (t : Table) : Except Problem Table :=
  match t.lookup key with
  | none => .ok (t.set key (.array [.table []]))
  | some (.array items) => .ok (t.set key (.array (items ++ [.table []])))
  | some _ => .error .overwritten

/-! ## Declarations -/

/-- What has been declared so far. -/
structure Declared where
  /-- The tables that have been opened, by a header or as part of a dotted key. -/
  opened : List Key := []
  /-- The tables that dotted keys of the current section have opened. -/
  pending : List Key := []
  /-- The arrays and tables that were given as values. -/
  frozen : List Key := []

namespace Declared

/-- Has the table been opened in an earlier section or by a header? -/
def isOpened (d : Declared) (key : Key) : Bool := d.opened.contains key

/-- Does the key lie at or below a value? -/
def isFrozen (d : Declared) (key : Key) : Bool := d.frozen.any (·.isPrefixOf key)

/-- Ends a section: what its dotted keys opened stays so. -/
def endSection (d : Declared) : Declared :=
  { d with opened := d.pending ++ d.opened, pending := [] }

/-- Forgets all at or below a key. -/
def forget (d : Declared) (key : Key) : Declared :=
  { d with
    opened := d.opened.filter (!key.isPrefixOf ·)
    frozen := d.frozen.filter (!key.isPrefixOf ·) }

/-- Notes a value under a key: arrays and tables cannot be added to. -/
def note (d : Declared) (key : Key) : Value → Declared
  | .array _ | .table _ => { d with frozen := key :: d.frozen }
  | _ => d

end Declared

/-! ## Keys and values -/

/-- May the character stand in a key without quotes? -/
def isBareKeyChar (c : Char) : Bool := c.isAlphanum || c = '-' || c = '_'

/-- One part of a key. -/
def readKeyPart : Reader String := do
  match ← Reader.peek with
  | some '\'' => readLiteralLine
  | some '"' => readBasicLine
  | some c =>
    if isBareKeyChar c then return String.ofList (← Reader.takeWhile isBareKeyChar)
    else Reader.fail .invalidKeyStart
  | none => Reader.fail .invalidKeyStart

/-- The parts of a key after the first one; each takes a character or more. -/
def readKeyRest (bound : Nat) : Reader Key := do
  Reader.skipBlanks
  match bound, ← Reader.peek with
  | bound + 1, some '.' => do
    Reader.skip 1
    Reader.skipBlanks
    let part ← readKeyPart
    return part :: (← readKeyRest bound)
  | _, _ => return []

/-- A key and the blanks after it. -/
def readKey : Reader Key := do
  let bound := (← get).rest.length
  let part ← readKeyPart
  return part :: (← readKeyRest bound)

/-- Passes over space and comments, of which there are no more than `bound`. -/
def skipSpaceAndComments (bound : Nat) : Reader Unit := do
  Reader.skipSpace
  match bound, ← Reader.peek with
  | bound + 1, some '#' => do
    Reader.skipComment
    skipSpaceAndComments bound
  | _, _ => return

/-- A text, a truth value, a moment or a number. -/
def readScalar (host : Host) : Reader Value := do
  match ← Reader.peek with
  | some '"' =>
    if ← Reader.sees "\"\"\"" then return .text (← readMultiline '"')
    else return .text (← readBasicLine)
  | some '\'' =>
    if ← Reader.sees "'''" then return .text (← readMultiline '\'')
    else return .text (← readLiteralLine)
  | _ =>
    if ← Reader.sees "true" then
      Reader.skip 4
      return .truth true
    if ← Reader.sees "false" then
      Reader.skip 5
      return .truth false
    if let some (moment, _) := matchDateTime (← get).rest then
      if !moment.isValid then Reader.fail .invalidDate
    if let some moment ← Reader.takeMatch matchDateTime then return .moment moment
    if let some time ← Reader.takeMatch matchTime then return .moment (.time time)
    if let some number ← Reader.takeMatch matchNumber then return ← liftM (number.value host)
    if let some special ← Reader.takeMatch matchSpecial then return .float special
    Reader.fail .invalidValue

/-- A key, an equals sign and what `value` reads. -/
def readPair (value : Reader Value) : Reader (Key × Value) := do
  let key ← readKey
  if (← Reader.peek) ≠ some '=' then Reader.fail .expectedEquals
  Reader.skip 1
  Reader.skipBlanks
  return (key, ← value)

/-- Adds a pair to an inline table. -/
def addInline (key : Key) (value : Value) (d : Declared) (t : Table) : Except Problem Table :=
  if d.isFrozen key then .error (.immutable key)
  else
    let part := key.getLast?.getD ""
    Table.change false (Table.add part value (.duplicateKey part)) key.dropLast t

/-- What an operation on tables gives, or its problem at the current position. -/
def settle {α : Type} : Except Problem α → Reader α
  | .ok a => return a
  | .error problem => Reader.fail problem

mutual

/-- A value inside so many arrays and inline tables. Each step into a value and from one item to the
    next takes a character or more, so that twice the number of characters ahead is bound enough. -/
def readValue (host : Host) (arrays tables bound : Nat) : Reader Value := do
  if !host.readRoom arrays tables (← get).rest then throw .stackExhausted
  match bound with
  | 0 => Reader.fail .invalidValue
  | bound + 1 =>
    match ← Reader.peek with
    | some '[' => do
      Reader.skip 1
      return .array (← readItems host (arrays + 1) tables bound)
    | some '\x7b' => do
      Reader.skip 1
      Reader.skipBlanks
      if (← Reader.peek) = some '\x7d' then
        Reader.skip 1
        return .table []
      return .table (← readInline host arrays (tables + 1) {} [] bound)
    | _ => readScalar host
termination_by structural bound

/-- The items of an array up to its closing bracket. -/
def readItems (host : Host) (arrays tables bound : Nat) : Reader (List Value) := do
  skipSpaceAndComments (← get).rest.length
  if (← Reader.peek) = some ']' then
    Reader.skip 1
    return []
  match bound with
  | 0 => Reader.fail .unclosedArray
  | bound + 1 =>
    let value ← readValue host arrays tables bound
    skipSpaceAndComments (← get).rest.length
    match ← Reader.peek with
    | some ']' => do
      Reader.skip 1
      return [value]
    | some ',' => do
      Reader.skip 1
      return value :: (← readItems host arrays tables bound)
    | _ => Reader.fail .unclosedArray
termination_by structural bound

/-- The pairs of an inline table up to its closing brace. -/
def readInline (host : Host) (arrays tables : Nat) (d : Declared) (t : Table) (bound : Nat) :
    Reader Table := do
  match bound with
  | 0 => Reader.fail .unclosedInlineTable
  | bound + 1 =>
    let (key, value) ← readPair (readValue host arrays tables bound)
    let t ← settle (addInline key value d t)
    Reader.skipBlanks
    match ← Reader.peek with
    | some '\x7d' => do
      Reader.skip 1
      return t
    | some ',' => do
      Reader.skip 1
      Reader.skipBlanks
      readInline host arrays tables (d.note key value) t bound
    | _ => Reader.fail .unclosedInlineTable
termination_by structural bound

end

/-! ## Statements -/

/-- A document as far as it has been read: its tables, what has been declared, and the table that
    the last header opened. -/
structure Draft where
  tables : Table := []
  declared : Declared := {}
  header : Key := []

/-- A header of a table. -/
def readTableHeader (draft : Draft) : Reader Draft := do
  Reader.skip 1
  Reader.skipBlanks
  let key ← readKey
  let d := draft.declared
  if d.isOpened key || d.isFrozen key then Reader.fail (.declaredTwice key)
  let tables ← settle (Table.change true .ok key draft.tables)
  if !(← Reader.sees "]") then Reader.fail .unclosedTableHeader
  Reader.skip 1
  return ⟨tables, { d with opened := key :: d.opened }, key⟩

/-- A header of a further table of an array. -/
def readArrayHeader (draft : Draft) : Reader Draft := do
  Reader.skip 2
  Reader.skipBlanks
  let key ← readKey
  let d := draft.declared
  if d.isFrozen key then Reader.fail (.immutable key)
  let tables ← settle
    (Table.change true (Table.append (key.getLast?.getD "")) key.dropLast draft.tables)
  if !(← Reader.sees "]]") then Reader.fail .unclosedArrayHeader
  Reader.skip 2
  let d := d.forget key
  return ⟨tables, { d with opened := key :: d.opened }, key⟩

/-- The tables that a dotted key goes through, below the current header. -/
def waysOf (header key : Key) : List Key :=
  (List.range' 1 (key.length - 1)).map fun n => header ++ key.take n

/-- A key with its value. -/
def readAssignment (host : Host) (draft : Draft) : Reader Draft := do
  let (key, value) ← readPair (do readValue host 0 0 (2 * (← get).rest.length + 2))
  let d := draft.declared
  let ways := waysOf draft.header key
  match ways.find? d.isOpened with
  | some way => Reader.fail (.redefined way)
  | none =>
    let parent := draft.header ++ key.dropLast
    if d.isFrozen parent then Reader.fail (.immutable parent)
    let tables ← settle
      (Table.change true (Table.add (key.getLast?.getD "") value .overwritten) parent draft.tables)
    let d := { d with pending := ways ++ d.pending }
    return { draft with tables, declared := d.note (draft.header ++ key) value }

/-- A statement, if one begins here. -/
def readStatement (host : Host) (draft : Draft) : Reader Draft := do
  match ← Reader.peek with
  | some '[' =>
    let draft := { draft with declared := draft.declared.endSection }
    if ← Reader.sees "[[" then readArrayHeader draft else readTableHeader draft
  | some '#' => return draft
  | some c =>
    if isBareKeyChar c || c = '"' || c = '\'' then readAssignment host draft
    else Reader.fail .invalidStatement
  | none => return draft

/-- Lines with a statement or without one, to the end of the document; each but the last takes a
    character or more. -/
def readLines (host : Host) (bound : Nat) (draft : Draft) : Reader Table := do
  match bound with
  | 0 => return draft.tables
  | bound + 1 =>
    Reader.skipBlanks
    match ← Reader.peek with
    | none => return draft.tables
    | some '\n' => do
      Reader.skip 1
      readLines host bound draft
    | some _ => do
      let draft ← readStatement host draft
      Reader.skipBlanks
      Reader.skipComment
      match ← Reader.peek with
      | none => return draft.tables
      | some '\n' => do
        Reader.skip 1
        readLines host bound draft
      | some _ => Reader.fail .expectedNewline

/-- The tables of a document. -/
def readDocument (host : Host) (text : List Char) : Except Fault Table :=
  let text := dropPairedReturns text
  ((readLines host (text.length + 1) {}).run { rest := text }).map (·.1)

/-- The words for a document that cannot be read. -/
def Fault.message : Fault → String
  | .malformed problem none => s!"{problem.message} (at end of document)"
  | .malformed problem (some p) =>
    s!"{problem.message} (at line {p.line}, column {p.column})"
  | .tooManyDigits fault => fault.message
  | .stackExhausted => Recursion.reading.message

end LoxSyntax.Toml
