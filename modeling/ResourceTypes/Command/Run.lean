import ResourceTypes.Build.Basic
import ResourceTypes.Command.Arguments
import ResourceTypes.Config.Example
import ResourceTypes.Declaration.Printer
import ResourceTypes.Files.Host
import ResourceTypes.Report

/-! # Running commands

`build` loads a document and a configuration, builds the types of the configured resource and
prints them as declarations or as a report; `diagnose` classifies a log; `config-example`
prints an example. A command ends with an exit code, what it prints and what it reports as
wrong. -/

namespace ResourceTypes

/-- How a command ends. -/
structure Outcome where
  code : Nat
  out : String := ""
  err : String := ""
deriving DecidableEq, Repr

namespace Outcome

/-- A command that prints a text, without blanks at its end. -/
def print (text : String) : Outcome :=
  { code := 0, out := String.ofList (Text.trimEnd text.toList) ++ "\n" }

/-- A command that fails with a message. -/
def fail (message : String) : Outcome := { code := 1, err := message ++ "\n" }

end Outcome

namespace Command

/-- The greatest size of a log in bytes. -/
def maxLogBytes : Nat := 16 * 1024 * 1024

variable {m : Type → Type} [Monad m]

/-! ### Building -/

/-- What a build prints. -/
def output (format : OutputFormat) (g : Generated) (c : Config) : String :=
  match format with
  | .text => g.render
  | .json => (buildReport g c).pretty

/-- The outcome of a build that has run, after the events that it reports as it goes. -/
def buildOutcome (format : OutputFormat) (result : BuildResult) (reported : String) : Outcome :=
  let ended := match result.outcome with
    | .ok g => Outcome.print (output format g result.config)
    | .error e => .fail e.message
  { ended with err := reported ++ ended.err }

/-- Makes sure that the audit events can go where they should. -/
def openAudit (host : Host m) (options : BuildOptions) : m (Except String Unit) := do
  match options.audit, options.auditLog with
  | .file, none => return .error "--audit-log is required with --audit file"
  | .file, some path =>
    match ← host.touch path with
    | .ok () => return .ok ()
    | .error f => return .error ("failed to open audit log " ++ path ++ ": " ++ f.message)
  | _, _ => return .ok ()

/-- Runs the build of a resource and sends the audit events where they should go. -/
def runBuild (host : Host m) (options : BuildOptions) (schema : Resource) (config : Config) :
    m Outcome := do
  match ← openAudit host options with
  | .error message => return .fail message
  | .ok () =>
    let result := ResourceTypes.build schema config .empty
    let lines := AuditEvent.lines (← host.now) result.events
    match options.audit, options.auditLog with
    | .stderr, _ => return buildOutcome options.format result lines
    | .file, some path =>
      host.append path lines
      return buildOutcome options.format result ""
    | _, _ => return buildOutcome options.format result ""

/-- The command `build`. -/
def build (host : Host m) (options : BuildOptions) : m Outcome := do
  match ← Document.load host options.schema with
  | .error e =>
    return .fail ("failed to load schema " ++ options.schema ++ ": " ++ e.message)
  | .ok document =>
    match ← Config.load host options.config with
    | .error e => return .fail ("failed to load resource config: " ++ e.message)
    | .ok config =>
      match document.resource? config.name with
      | none => return .fail ("resource " ++ config.name ++ " not found in schema document")
      | some schema => runBuild host options schema config

/-! ### Diagnosing -/

/-- The command `diagnose`. -/
def diagnose (host : Host m) (operation : Operation) (logs : String) : m Outcome := do
  match ← host.read logs with
  | .error f => return .fail ("failed to read " ++ logs ++ ": " ++ f.message)
  | .ok bytes =>
    if maxLogBytes < bytes.length then
      return .fail (logs ++ " is " ++ toString bytes.length ++ " bytes, exceeding the "
        ++ toString maxLogBytes ++ " byte limit")
    else match classify operation bytes with
      | some failure => return .fail failure.message
      | none => return .print (operation.label ++ ": no errors reported")

/-! ### All commands -/

/-- How the commands are called. -/
def usage : String :=
  "Usage: tfcrd build --schema PATH [--config PATH] [--format text|json] "
    ++ "[--audit none|stderr|file] [--audit-log PATH]\n"
    ++ "       tfcrd diagnose --operation apply|plan|refresh|destroy --logs PATH\n"
    ++ "       tfcrd config-example"

/-- Runs a request. -/
def run (host : Host m) : Request → m Outcome
  | .build options => build host options
  | .diagnose operation logs => diagnose host operation logs
  | .configExample => return .print exampleConfig
  | .help => return .print usage
  | .version => return .print "tfcrd 0.1.0"

/-- Runs a command line; wrong usage has an exit code of its own. -/
def runWords (host : Host m) (words : List String) : m Outcome :=
  match Request.parse words with
  | .ok request => run host request
  | .error e => return { code := 2, err := e.message ++ "\n" ++ usage ++ "\n" }

end Command

end ResourceTypes
