import LoxSyntax.Editor.Mark
set_option autoImplicit false

/-! # Documents of an editor

Each event concerns one document: its text is stored, or looked at again, and its marks are
published. A workspace is the simplest library that does what is documented of one: a list of
documents and a list of publications (`Workspace.isDocumented_interface`). -/

namespace LoxSyntax

/-- What happens to a document. -/
inductive DocumentEvent
  /-- The document is opened or changed and now holds the text. -/
  | stored (uri text : String)
  /-- The document is looked at again. -/
  | checked (uri : String)
  deriving DecidableEq

/-- The document that an event concerns. -/
def DocumentEvent.uri : DocumentEvent → String
  | .stored uri _ => uri
  | .checked uri => uri

/-- The name of a document: its identifier from after the last slash on. -/
def documentName (uri : String) : String :=
  String.ofList ((uri.toList.reverse.takeWhile (· ≠ '/')).reverse)

namespace EditorInterface

variable (E : EditorInterface)

/-- Publishes the marks on a document. -/
def validate (s : E.State) (uri : String) : Except E.Fault E.State := do
  let source ← E.source s uri
  let marks ← E.marksOf source (documentName uri)
  return E.publish s ⟨uri, marks⟩

/-- The state in which an event is handled: the library has stored the text that came with it. -/
def receive (s : E.State) : DocumentEvent → E.State
  | .stored uri text => E.store s uri text
  | .checked _ => s

/-- The state after an event. -/
def handle (s : E.State) (event : DocumentEvent) : Except E.Fault E.State :=
  E.validate (E.receive s event) event.uri

/-- The state after a row of events, or the first fault that is raised in handling one. -/
def run (s : E.State) : List DocumentEvent → Except E.Fault E.State
  | [] => .ok s
  | event :: events => do run (← E.handle s event) events

end EditorInterface

/-! ## A workspace -/

/-- Documents by their identifiers, and what has been published of them. -/
structure Workspace where
  documents : List (String × String) := []
  published : List (Publication Spot) := []
  deriving DecidableEq

/-- What a workspace does not do. -/
inductive WorkspaceFault
  /-- The number is no line of a document. -/
  | line (value : Int)
  /-- The number is no character of a line. -/
  | character (value : Int)
  /-- There is no document with the identifier. -/
  | notOpened (uri : String)
  deriving DecidableEq

/-- The words for what is not done. -/
def WorkspaceFault.message : WorkspaceFault → String
  | .line value => s!"Position.line should be in range [0:{maxSpot}], but was {value}."
  | .character value => s!"Position.character should be in range [0:{maxSpot}], but was {value}."
  | .notOpened uri => s!"not opened: {uri}"

/-- Is the number one that an editor takes? -/
def isSpotNumber (n : Int) : Bool := 0 ≤ n && n ≤ maxSpot

/-- The place with the given numbers, the line being looked at first. -/
def Spot.of (line character : Int) : Except WorkspaceFault Spot :=
  if !isSpotNumber line then .error (.line line)
  else if !isSpotNumber character then .error (.character character)
  else .ok ⟨line.toNat, character.toNat⟩

namespace Workspace

/-- The text of a document. -/
def source (w : Workspace) (uri : String) : Except WorkspaceFault String :=
  match w.documents.lookup uri with
  | some text => .ok text
  | none => .error (.notOpened uri)

/-- Gives a document a new text. -/
def store (w : Workspace) (uri text : String) : Workspace :=
  { w with documents := (uri, text) :: w.documents.filter (·.1 ≠ uri) }

/-- Adds a publication. -/
def publish (w : Workspace) (p : Publication Spot) : Workspace :=
  { w with published := w.published ++ [p] }

/-- A workspace as the library of an editor. -/
def interface : EditorInterface where
  Place := Spot
  Fault := WorkspaceFault
  State := Workspace
  place := Spot.of
  spot := id
  store
  source
  publish
  published

theorem source_store_self (w : Workspace) (uri text : String) :
    (w.store uri text).source uri = .ok text := by
  simp [store, source]

/-- Storing a document leaves the others alone. -/
theorem source_store_of_ne (w : Workspace) (uri text other : String) (h : other ≠ uri) :
    (w.store uri text).source other = w.source other := by
  obtain ⟨documents, published⟩ := w
  have hne : (other == uri) = false := by simpa using h
  have hlookup : (documents.filter (·.1 ≠ uri)).lookup other = documents.lookup other := by
    induction documents with
    | nil => rfl
    | cons d ds ih =>
      obtain ⟨key, value⟩ := d
      by_cases hk : key = uri
      · subst hk
        simpa [List.lookup_cons, hne] using ih
      · by_cases ho : other = key
        · subst ho
          simp [hk]
        · have hok : (other == key) = false := by simpa using ho
          simpa [List.lookup_cons, hk, hok] using ih
  simp only [store, source, List.lookup_cons, hne, hlookup]

theorem spotOf_natCast {line character : Nat} (hline : line ≤ maxSpot)
    (hcharacter : character ≤ maxSpot) :
    Spot.of (line : Int) (character : Int) = .ok ⟨line, character⟩ := by
  have hspot : ∀ n : Nat, n ≤ maxSpot → isSpotNumber (n : Int) = true := by
    intro n hn
    have hle : (n : Int) ≤ maxSpot := by exact_mod_cast hn
    simp [isSpotNumber, hle]
  simp [Spot.of, hspot line hline, hspot character hcharacter]

/-- A workspace does what is documented of a library. -/
theorem isDocumented_interface : interface.IsDocumented where
  place_natCast line character hline hcharacter :=
    ⟨⟨line, character⟩, spotOf_natCast hline hcharacter, rfl⟩
  source_store_self := source_store_self
  source_store_of_ne := source_store_of_ne
  source_publish _ _ _ := rfl
  published_store _ _ _ := rfl
  published_publish _ _ := rfl

end Workspace

end LoxSyntax
