import ResourceTypes.Log.Failure

/-! # Command lines

A command line names a command and gives its options, each at most once, as `--name value` or
`--name=value`. `Request.parse` reads the words of a command line; what it refuses is wrong
usage. -/

namespace ResourceTypes

/-- How the generated declarations are printed. -/
inductive OutputFormat where
  | text
  | json
deriving DecidableEq, Repr

/-- Where the audit events go. -/
inductive AuditMode where
  | none
  | stderr
  | file
deriving DecidableEq, Repr

/-- The options of a build. -/
structure BuildOptions where
  schema : String
  config : Option String
  format : OutputFormat
  audit : AuditMode
  auditLog : Option String
deriving DecidableEq, Repr

/-- What a command line asks for. -/
inductive Request where
  | build (options : BuildOptions)
  | diagnose (operation : Operation) (logs : String)
  | configExample
  | help
  | version
deriving DecidableEq, Repr

/-- Why a command line is refused. -/
inductive UsageError where
  | noCommand
  | unknownCommand (word : String)
  | unknownOption (word : String)
  | strayWord (word : String)
  | missingValue (option : String)
  | repeatedOption (option : String)
  | missingOption (option : String)
  | badValue (option value : String)
deriving DecidableEq, Repr

/-- The wording of a usage error. -/
def UsageError.message : UsageError → String
  | .noCommand => "a command is required: build, diagnose or config-example"
  | .unknownCommand word => "unknown command " ++ word
  | .unknownOption word => "unknown option " ++ word
  | .strayWord word => "unexpected argument " ++ word
  | .missingValue option => "a value is required for --" ++ option
  | .repeatedOption option => "--" ++ option ++ " cannot be given twice"
  | .missingOption option => "--" ++ option ++ " is required"
  | .badValue option value => "invalid value " ++ value ++ " for --" ++ option

namespace Request

/-! ### Options -/

/-- A word that cannot be the value of an option. -/
def looksLikeOption (word : String) : Bool :=
  match word.toList with
  | '-' :: _ :: _ => true
  | _ => false

/-- The name of an option and the value given with it. -/
def optionOf? (word : String) : Option (String × Option String) :=
  match word.toList with
  | '-' :: '-' :: body =>
    match Text.cutAt '=' body with
    | some (name, value) => some (String.ofList name, some (String.ofList value))
    | none => some (String.ofList body, none)
  | _ => none

/-- An option of a command: its value updates what has been read. -/
structure OptionSlot (σ : Type) where
  name : String
  store : σ → String → Except UsageError σ

/-- What the words after a command say: its options, or a call for help. -/
inductive Words (σ : Type) where
  | options (state : σ)
  | help

/-- Stores the value of an option, unless it is empty or the option is already `seen`. -/
def storeOption {σ : Type} (slot : OptionSlot σ) (seen : List String) (state : σ)
    (value : String) : Except UsageError σ :=
  if seen.contains slot.name then .error (.repeatedOption slot.name)
  else if value.isEmpty then .error (.missingValue slot.name)
  else slot.store state value

/-- Reads the words after a command with the given options. -/
def readWords {σ : Type} (slots : List (OptionSlot σ)) :
    List String → σ → List String → Except UsageError (Words σ)
  | _, state, [] => .ok (.options state)
  | seen, state, word :: rest =>
    if word = "--" then
      match rest with
      | [] => .ok (.options state)
      | stray :: _ => .error (.strayWord stray)
    else if word = "--help" ∨ word = "-h" then .ok .help
    else match optionOf? word with
      | none => .error (if looksLikeOption word then .unknownOption word else .strayWord word)
      | some (name, value) =>
        match slots.find? fun slot => slot.name == name, value, rest with
        | none, _, _ => .error (.unknownOption word)
        | some slot, some value, rest =>
          match storeOption slot seen state value with
          | .error e => .error e
          | .ok state => readWords slots (name :: seen) state rest
        | some _, none, [] => .error (.missingValue name)
        | some slot, none, value :: rest =>
          if looksLikeOption value then .error (.missingValue name)
          else match storeOption slot seen state value with
            | .error e => .error e
            | .ok state => readWords slots (name :: seen) state rest

/-- An option with fixed alternatives. -/
def oneOf {σ α : Type} (name : String) (alternatives : List (String × α)) (store : σ → α → σ) :
    OptionSlot σ where
  name
  store state value :=
    match alternatives.find? fun a => a.1 == value with
    | some a => .ok (store state a.2)
    | none => .error (.badValue name value)

/-- An option with any value. -/
def anyText {σ : Type} (name : String) (store : σ → String → σ) : OptionSlot σ where
  name
  store state value := .ok (store state value)

/-- An option that must have been given. -/
def required {α : Type} (name : String) : Option α → Except UsageError α
  | some value => .ok value
  | none => .error (.missingOption name)

/-! ### Commands -/

/-- What has been read of the options of a build. -/
structure BuildDraft where
  schema : Option String := none
  config : Option String := none
  format : OutputFormat := .text
  audit : AuditMode := .none
  auditLog : Option String := none

/-- The options of a build. -/
def buildSlots : List (OptionSlot BuildDraft) :=
  [anyText "schema" fun d path => { d with schema := some path },
   anyText "config" fun d path => { d with config := some path },
   oneOf "format" [("text", .text), ("json", .json)] fun d f => { d with format := f },
   oneOf "audit" [("none", .none), ("stderr", .stderr), ("file", .file)]
     fun d mode => { d with audit := mode },
   anyText "audit-log" fun d path => { d with auditLog := some path }]

/-- The request of a build. -/
def buildOf (d : BuildDraft) : Except UsageError Request := do
  let schema ← required "schema" d.schema
  return .build
    { schema, config := d.config, format := d.format, audit := d.audit, auditLog := d.auditLog }

/-- What has been read of the options of a diagnosis. -/
structure DiagnoseDraft where
  operation : Option Operation := none
  logs : Option String := none

/-- The options of a diagnosis. -/
def diagnoseSlots : List (OptionSlot DiagnoseDraft) :=
  [oneOf "operation" (Operation.all.map fun o => (o.label, o))
     fun d o => { d with operation := some o },
   anyText "logs" fun d path => { d with logs := some path }]

/-- The request of a diagnosis. -/
def diagnoseOf (d : DiagnoseDraft) : Except UsageError Request := do
  let operation ← required "operation" d.operation
  let logs ← required "logs" d.logs
  return .diagnose operation logs

/-- Reads the words after a command and makes its request. -/
def ofWords {σ : Type} (slots : List (OptionSlot σ)) (start : σ)
    (make : σ → Except UsageError Request) (words : List String) : Except UsageError Request := do
  match ← readWords slots [] start words with
  | .help => return .help
  | .options state => make state

/-- Reads the words of a command line. -/
def parse : List String → Except UsageError Request
  | [] => .error .noCommand
  | word :: rest =>
    if word = "build" then ofWords buildSlots {} buildOf rest
    else if word = "diagnose" then ofWords diagnoseSlots {} diagnoseOf rest
    else if word = "config-example" then ofWords [] () (fun _ => .ok .configExample) rest
    else if word = "--help" ∨ word = "-h" then .ok .help
    else if word = "--version" ∨ word = "-V" then .ok .version
    else .error (.unknownCommand word)

end Request

end ResourceTypes
