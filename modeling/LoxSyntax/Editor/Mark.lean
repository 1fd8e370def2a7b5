import LoxSyntax.Diagnostic.Source
set_option autoImplicit false

/-! # Marks in an editor

An editor shows a diagnostic as a mark on a range of a document. It counts lines and characters from
zero. A diagnostic with a column marks the one character there; one without marks its whole line.

The program talks to an editor through a library, which makes places out of numbers, holds the
documents and passes publications on. What the program does is defined for any such library
(`EditorInterface`); what the library is documented to do is `EditorInterface.IsDocumented`. -/

namespace LoxSyntax

/-! ## What an editor is told -/

/-- The largest line or character number that an editor takes. -/
def maxSpot : Nat := 2147483647

/-- The numbers of a place in a document. -/
structure Spot where
  line : Nat
  character : Nat
  deriving DecidableEq, Repr

/-- A part of a document between two places, its end not included. -/
structure MarkRange (Place : Type) where
  first : Place
  last : Place
  deriving DecidableEq, Repr

/-- How grave the message of a mark is. An editor numbers the grades from one. -/
inductive Severity
  | error | warning | information | hint
  deriving DecidableEq, Repr

/-- The number of a grade. -/
def Severity.number (severity : Severity) : Nat := severity.ctorIdx + 1

/-- A message on a part of a document. -/
structure Mark (Place : Type) where
  range : MarkRange Place
  message : String
  severity : Severity
  /-- Who the editor names as the sender of the message. -/
  sender : String
  deriving DecidableEq

/-- What an editor is told about a document: all marks on it. -/
structure Publication (Place : Type) where
  uri : String
  marks : List (Mark Place)
  deriving DecidableEq

/-! ## The library -/

/-- A library through which a program talks to an editor. -/
structure EditorInterface where
  /-- Places in a document. -/
  Place : Type
  /-- What the library raises. -/
  Fault : Type
  /-- What the library keeps. -/
  State : Type
  /-- The place with the given line and character. -/
  place : Int → Int → Except Fault Place
  /-- The numbers of a place. -/
  spot : Place → Spot
  /-- Takes note that the document with an identifier has been opened or changed and now holds a
      text. -/
  store : State → String → String → State
  /-- The text of the document with an identifier. -/
  source : State → String → Except Fault String
  /-- Passes a publication on to the editor. -/
  publish : State → Publication Place → State
  /-- The publications that have been passed on, in their order. -/
  published : State → List (Publication Place)

namespace EditorInterface

/-- What a library is documented to do: it takes numbers of up to 31 bits for a place, a document
    holds the text that it was given last, and publications are passed on one by one and change no
    document. -/
structure IsDocumented (E : EditorInterface) : Prop where
  place_natCast : ∀ line character : Nat, line ≤ maxSpot → character ≤ maxSpot →
    ∃ p, E.place line character = .ok p ∧ E.spot p = ⟨line, character⟩
  source_store_self : ∀ s uri text, E.source (E.store s uri text) uri = .ok text
  source_store_of_ne : ∀ s uri text other, other ≠ uri →
    E.source (E.store s uri text) other = E.source s other
  source_publish : ∀ s p uri, E.source (E.publish s p) uri = E.source s uri
  published_store : ∀ s uri text, E.published (E.store s uri text) = E.published s
  published_publish : ∀ s p, E.published (E.publish s p) = E.published s ++ [p]

variable (E : EditorInterface)

/-! ## Marks -/

/-- The part of its document that a diagnostic is about. -/
def rangeOf (d : Diagnostic) : Except E.Fault (MarkRange E.Place) := do
  let line := d.line - 1
  let (first, last) : Int × Int :=
    match d.column with
    | some column => (column - 1, column)
    | none => (0, d.quotedLine.length)
  return ⟨← E.place line first, ← E.place line last⟩

/-- The mark for a diagnostic. -/
def markOf (d : Diagnostic) : Except E.Fault (Mark E.Place) := do
  return { range := ← E.rangeOf d, message := d.message, severity := .error, sender := "loxfront" }

/-- The marks on a text: none if it is a list of expressions, else the first fault. -/
def marksOf (source filename : String) : Except E.Fault (List (Mark E.Place)) :=
  match parseSource source filename with
  | .ok _ => .ok []
  | .error d => do return [← E.markOf d]

end EditorInterface

end LoxSyntax
