import ResourceTypes.Command.Run
import Std.Time.DateTime.Timestamp

/-! # The program

Runs the command line on the files of the machine. -/

namespace ResourceTypes

/-- The code of an error of the machine, which may be reported with a minus sign. -/
def errorCode (e : IO.Error) : Nat :=
  let code : UInt32 := match e with
    | .noFileOrDirectory _ code _ | .inappropriateType _ code _ | .invalidArgument _ code _
    | .permissionDenied _ code _ | .resourceExhausted _ code _ | .noSuchThing _ code _
    | .otherError code _ | .illegalOperation code _ => code
    | _ => 0
  if code.toNat < Nat.pow 2 31 then code.toNat else Nat.pow 2 32 - code.toNat

/-- A fault of the machine as a file fault. -/
def FileFault.ofMachine (e : IO.Error) : FileFault :=
  match errorCode e with
  | 2 => .notFound
  | 20 => .notDirectory
  | 21 => .isDirectory
  | 36 => .nameTooLong
  | 13 => .other "Permission denied (os error 13)"
  | _ => .other (toString e)

/-- The machine itself. -/
def machine : Host IO where
  read path := do
    try
      return .ok (← IO.FS.readBinFile path).toList
    catch e => return .error (.ofMachine e)
  touch path := do
    try
      let _ ← IO.FS.Handle.mk path .append
      return .ok ()
    catch e => return .error (.ofMachine e)
  append path text := do
    let file ← IO.FS.Handle.mk path .append
    file.putStr text
  configVariable := IO.getEnv "TFCRD_CONFIG"
  now := do
    return (← Std.Time.Timestamp.now).toMillisecondsSinceUnixEpoch.toInt.toNat

end ResourceTypes

/-- Runs the command line and prints what it prints. -/
def main (words : List String) : IO UInt32 := do
  let outcome ← ResourceTypes.Command.runWords ResourceTypes.machine words
  IO.print outcome.out
  IO.eprint outcome.err
  return outcome.code.toUInt32
