import LoxSyntax.Text.Quoted
set_option autoImplicit false

/-! # UTF-8

Reading a text from the bytes of a file. A sequence of bytes that is no UTF-8 is refused at the
first byte that no well-formed text can have there, and the refusal names the bytes that were taken
for the beginning of a character. -/

namespace LoxSyntax.Utf8

/-- What is wrong with a run of bytes. -/
inductive Flaw
  /-- The byte begins no character. -/
  | badStart
  /-- The bytes begin a character and the next one does not go on with it. -/
  | badContinuation
  /-- The bytes begin a character and the input ends within it. -/
  | truncated
  deriving DecidableEq, Repr

/-- Why bytes are no UTF-8: the flaw, and the run of bytes that it concerns. -/
structure Fault where
  flaw : Flaw
  first : UInt8
  position : Nat
  length : Nat
  deriving DecidableEq, Repr

/-- The words for a flaw. -/
def Flaw.message : Flaw → String
  | .badStart => "invalid start byte"
  | .badContinuation => "invalid continuation byte"
  | .truncated => "unexpected end of data"

/-- The words for a refusal: a single byte is shown, a longer run is named by its positions. -/
def Fault.message (fault : Fault) : String :=
  let place :=
    if fault.length = 1 then
      s!"byte 0x{String.ofList (hexDigits 2 fault.first.toNat)} in position {fault.position}"
    else
      s!"bytes in position {fault.position}-{fault.position + fault.length - 1}"
  s!"'utf-8' codec can't decode {place}: {fault.flaw.message}"

/-- Is the byte one of those that continue a character? -/
def isContinuation (b : UInt8) : Bool := 0x80 ≤ b && b ≤ 0xbf

/-- How many bytes a character has whose first byte is `b`, and between which bytes its second one
    lies; `none` for a byte that begins no character. -/
def shape? (b : UInt8) : Option (Nat × UInt8 × UInt8) :=
  if b < 0x80 then some (1, 0x80, 0xbf)
  else if b < 0xc2 then none
  else if b < 0xe0 then some (2, 0x80, 0xbf)
  else if b = 0xe0 then some (3, 0xa0, 0xbf)
  else if b = 0xed then some (3, 0x80, 0x9f)
  else if b < 0xf0 then some (3, 0x80, 0xbf)
  else if b = 0xf0 then some (4, 0x90, 0xbf)
  else if b < 0xf4 then some (4, 0x80, 0xbf)
  else if b = 0xf4 then some (4, 0x80, 0x8f)
  else none

/-- The bits that the first byte of a character of `size` bytes contributes. -/
def leadBits (size : Nat) (b : UInt8) : Nat :=
  match size with
  | 1 => b.toNat
  | 2 => b.toNat % 0x20
  | 3 => b.toNat % 0x10
  | _ => b.toNat % 0x08

/-- How many of the bytes after the first go on with a character of `size` bytes whose second byte
    lies between `low` and `high`. -/
def matching (size : Nat) (low high : UInt8) (rest : List UInt8) : Nat :=
  match rest with
  | [] => 0
  | second :: more =>
    if size ≤ 1 || second < low || high < second then 0
    else 1 + ((more.take (size - 2)).takeWhile isContinuation).length

/-- The character that begins with the byte `first`, and how many of the bytes after it belong to
    it; or the flaw, and how many bytes it concerns. -/
def readChar (first : UInt8) (rest : List UInt8) : Except (Flaw × Nat) (Char × Nat) :=
  match shape? first with
  | none => .error (.badStart, 1)
  | some (size, low, high) =>
    let found := matching size low high rest
    if found + 1 = size then
      let code := (rest.take found).foldl (fun n b => 0x40 * n + b.toNat % 0x40)
        (leadBits size first)
      .ok (Char.ofNat code, found)
    else if found < rest.length then .error (.badContinuation, found + 1)
    else .error (.truncated, found + 1)

/-- Reads the bytes from the given position on; the first `skip` of them belong to a character that
    has been read already. -/
def decodeFrom (position skip : Nat) : List UInt8 → Except Fault (List Char)
  | [] => .ok []
  | first :: rest =>
    match skip with
    | skip + 1 => decodeFrom (position + 1) skip rest
    | 0 =>
      match readChar first rest with
      | .error (flaw, length) => .error ⟨flaw, first, position, length⟩
      | .ok (c, more) => (decodeFrom (position + 1) more rest).map (c :: ·)

/-- The text that the bytes spell. -/
def decode (bytes : List UInt8) : Except Fault (List Char) :=
  decodeFrom 0 0 bytes

/-- The bytes that spell a text. -/
def encode (text : String) : List UInt8 :=
  text.toUTF8.toList

end LoxSyntax.Utf8
