import ResourceTypes.Config.Reader
import ResourceTypes.Schema.Reader

/-! # Files

The program reads whole files, appends to a log and asks for the time and for one variable of
its environment. A `Host` offers just that in some monad, so that the commands run in the same way
on the machine and on a tree of files in memory. -/

namespace ResourceTypes

/-- Why a file cannot be opened or read. -/
inductive FileFault where
  | notFound
  | notDirectory
  | isDirectory
  | nameTooLong
  | nullByte
  | other (reason : String)
deriving DecidableEq, Repr

/-- The wording of a file fault. -/
def FileFault.message : FileFault → String
  | .notFound => "No such file or directory (os error 2)"
  | .notDirectory => "Not a directory (os error 20)"
  | .isDirectory => "Is a directory (os error 21)"
  | .nameTooLong => "File name too long (os error 36)"
  | .nullByte => "file name contained an unexpected NUL byte"
  | .other reason => reason

/-- What the commands need of the machine. -/
structure Host (m : Type → Type) where
  /-- The content of a file. -/
  read : String → m (Except FileFault (List UInt8))
  /-- Creates a file unless it exists, and makes sure that it can be appended to. -/
  touch : String → m (Except FileFault Unit)
  /-- Appends to a file. -/
  append : String → String → m Unit
  /-- The variable that names the configuration file. -/
  configVariable : m (Option String)
  /-- Milliseconds since the epoch. -/
  now : m Nat

/-! ### Documents and configurations from files -/

/-- Loads a schema document. -/
def Document.load {m : Type → Type} [Monad m] (host : Host m) (path : String) :
    m (Except DocumentError Document) := do
  match ← host.read path with
  | .error f => return .error (.unreadable f.message)
  | .ok bytes => return Document.ofBytes bytes

namespace Config

/-- The configuration file when none is named. -/
def defaultPath : String := "tfcrd.toml"

/-- The greatest length of a path in bytes. -/
def maxPathBytes : Nat := 4096

/-- The greatest length of a component of a path in bytes. -/
def maxComponentBytes : Nat := 255

/-- The path of the configuration: the one given, else the one in the environment, else the
usual one. Long paths and long components are refused. -/
def choosePath (given named : Option String) : Except ConfigError String :=
  let path := (given <|> named).getD defaultPath
  if maxPathBytes < path.utf8ByteSize then .error .longPath
  else if (Text.pieces '/' path.toList).any fun c => Nat.blt maxComponentBytes (Text.byteLength c)
  then .error .longComponent
  else .ok path

/-- Loads a configuration. -/
def load {m : Type → Type} [Monad m] (host : Host m) (given : Option String) :
    m (Except ConfigError Config) := do
  match choosePath given (← host.configVariable) with
  | .error e => return .error e
  | .ok path =>
    match ← host.read path with
    | .error f => return .error (.unreadable f.message)
    | .ok bytes => return Config.ofBytes bytes

end Config

end ResourceTypes
