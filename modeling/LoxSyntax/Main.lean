import LoxSyntax.Command.Run
set_option autoImplicit false

/-! # The command

Runs the command on the files of the system. -/

namespace LoxSyntax

/-- What the system says about a file that it does not read or write. -/
def accessFault (e : IO.Error) : AccessFault :=
  match e with
  | .noFileOrDirectory _ _ _ => .notFound
  | .inappropriateType _ 20 _ => .notDirectory
  | .inappropriateType _ 21 _ => .isDirectory
  | .invalidArgument _ 36 _ => .nameTooLong
  | .permissionDenied _ code reason => .other code.toNat reason
  | .otherError code reason => .other code.toNat reason
  | e => .other 5 (toString e)

instance : FileAccess IO where
  read p := do
    try
      return .ok (← IO.FS.readBinFile p.text).toList
    catch e => return .error (accessFault e)
  write p content := do
    try
      IO.FS.writeBinFile p.text ⟨content.toArray⟩
      return .ok ()
    catch e => return .error (accessFault e)

/-- The number that a run gives back to the system; a crash gives one. -/
def Ending.exitCode : Ending → UInt32
  | .finished code | .answered code => code.toUInt32
  | .crashed _ => 1

end LoxSyntax

open LoxSyntax in
/-- Runs the command and prints what it shows. -/
def main (arguments : List String) : IO UInt32 := do
  let result ← runCommand .standard arguments
  IO.print result.stdout
  IO.eprint result.stderr
  if let .crashed crash := result.ending then
    IO.eprintln s!"error: {crash.message}"
  return result.ending.exitCode
