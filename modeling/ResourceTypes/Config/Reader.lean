import ResourceTypes.Config
import ResourceTypes.Text.Utf8
import ResourceTypes.Toml.Document

/-! # Reading configurations

A configuration is a TOML document. The whole text is parsed first; then each table is visited
in the order of its keys, and the first key that is unknown or whose value does not fit decides
the error; a field that must be given is missed last. A table with fixed fields may be given as
an array of the fields in order. `Config.ofToml` reads a text and checks the rules,
`Config.ofBytes` reads bytes of bounded size. -/

namespace ResourceTypes

open Toml (Value)

/-- Why a TOML text is no configuration. -/
inductive ConfigFault where
  | malformed
  | wrongType
  | unknownField (name : String) (known : List String)
  | missingField (name : String)
  | badPath (error : PathError)
deriving DecidableEq, Repr

/-- Why there is no configuration. -/
inductive ConfigError where
  | unreadable (reason : String)
  | fault (cause : ConfigFault)
  | breach (rule : Breach)
  | tooLarge
  | notUtf8
  | longPath
  | longComponent
deriving DecidableEq, Repr

/-- Names in backquotes, as alternatives. -/
def alternatives : List String → String
  | [a] => "expected `" ++ a ++ "`"
  | [a, b] => "expected `" ++ a ++ "` or `" ++ b ++ "`"
  | names => "expected one of " ++ ", ".intercalate (names.map fun n => "`" ++ n ++ "`")

/-- The wording of a fault. -/
def ConfigFault.message : ConfigFault → String
  | .malformed => "malformed document"
  | .wrongType => "value of the wrong type"
  | .unknownField name known => "unknown field `" ++ name ++ "`, " ++ alternatives known
  | .missingField name => "missing field `" ++ name ++ "`"
  | .badPath error => error.message

/-- The wording of a configuration error. -/
def ConfigError.message : ConfigError → String
  | .unreadable reason => "config io error: " ++ reason
  | .fault cause => "config parse error: " ++ cause.message
  | .breach rule => "invalid config: " ++ rule.message
  | .tooLarge => "invalid config: config file exceeds size limit"
  | .notUtf8 => "invalid config: config file must be utf-8"
  | .longPath => "invalid config: config path exceeds max length"
  | .longComponent => "invalid config: config path component too long"

namespace Config.Reader

/-! ### Values -/

/-- A value as a text. -/
def text : Value → Except ConfigFault String
  | .text s => .ok s
  | _ => .error .wrongType

/-- The items of an array. -/
def items : Value → Except ConfigFault (List Value)
  | .array l => .ok l
  | _ => .error .wrongType

/-- A path error as a fault. -/
def ofPath {α : Type} : Except PathError α → Except ConfigFault α
  | .ok a => .ok a
  | .error e => .error (.badPath e)

/-- A value as a source path. -/
def sourcePath (v : Value) : Except ConfigFault FieldPath := do
  ofPath (FieldPath.parse (← text v))

/-- A value as a canonical path. -/
def canonicalPath (v : Value) : Except ConfigFault CanonicalPath := do
  ofPath (CanonicalPath.parse (← text v))

/-- Entries in the order of their keys. -/
def inOrder (entries : List (String × Value)) : List (String × Value) :=
  (OrderedMap.ofList entries).entries

/-! ### Tables with fixed fields -/

/-- A field of a table: reading it updates what has been read. -/
structure Field (σ : Type) where
  key : String
  read : σ → Value → Except ConfigFault σ

/-- Reads the entries of a table in order. -/
def readFields {σ : Type} (fields : List (Field σ)) :
    σ → List (String × Value) → Except ConfigFault σ
  | state, [] => .ok state
  | state, (key, v) :: rest =>
    match fields.find? fun f => f.key == key with
    | none => .error (.unknownField key (fields.map Field.key))
    | some f =>
      match f.read state v with
      | .error e => .error e
      | .ok state => readFields fields state rest

/-- Reads the items of an array into the fields in order, as far as both go. -/
def readItems {σ : Type} : List (Field σ) → σ → List Value → Except ConfigFault σ
  | f :: fields, state, v :: rest =>
    match f.read state v with
    | .error e => .error e
    | .ok state => readItems fields state rest
  | _, state, _ => .ok state

/-- Reads a table with fixed fields; `complete` names a missing field. -/
def readTable {σ α : Type} (fields : List (Field σ)) (start : σ)
    (complete : σ → Except String α) : Value → Except ConfigFault α
  | .table entries =>
    match readFields fields start (inOrder entries) with
    | .error e => .error e
    | .ok state =>
      match complete state with
      | .ok a => .ok a
      | .error name => .error (.missingField name)
  | .array l =>
    match readItems fields start l with
    | .error e => .error e
    | .ok state =>
      match complete state with
      | .ok a => .ok a
      | .error _ => .error .wrongType
  | _ => .error .wrongType

/-! ### The parts of a configuration -/

/-- What has been read of a reference. -/
structure ReferenceDraft where
  typeName : Option String := none
  extractor : Option String := none
  refFieldName : Option String := none
  selectorFieldName : Option String := none

/-- A reference. -/
def reference : Value → Except ConfigFault Reference :=
  readTable (σ := ReferenceDraft)
    [⟨"type", fun d v => do return { d with typeName := some (← text v) }⟩,
     ⟨"extractor", fun d v => do return { d with extractor := some (← text v) }⟩,
     ⟨"ref_field_name", fun d v => do return { d with refFieldName := some (← text v) }⟩,
     ⟨"selector_field_name",
       fun d v => do return { d with selectorFieldName := some (← text v) }⟩]
    {}
    fun d =>
      match d.typeName with
      | none => .error "type"
      | some typeName =>
        .ok ⟨typeName, d.extractor, d.refFieldName, d.selectorFieldName⟩

/-- References by source path; of keys that spell one path the last in order counts. -/
def references : Value → Except ConfigFault (OrderedMap FieldPath Reference)
  | .table entries =>
    (inOrder entries).foldlM
      (fun m e => do
        let path ← ofPath (FieldPath.parse e.1)
        return m.insert path (← reference e.2))
      .empty
  | _ => .error .wrongType

/-- Target paths by source path. -/
def fieldPaths : Value → Except ConfigFault (OrderedMap String String)
  | .table entries =>
    (inOrder entries).foldlM (fun m e => do return m.insert e.1 (← text e.2)) .empty
  | _ => .error .wrongType

/-- The registry of sensitive fields. -/
def sensitive : Value → Except ConfigFault (OrderedMap String String) :=
  readTable [⟨"field_paths", fun _ v => fieldPaths v⟩] .empty .ok

/-- The ignored fields. -/
def lateInitializer : Value → Except ConfigFault LateInitializer :=
  readTable
    [⟨"ignored_fields",
       fun l v => do return { l with ignoredFields := ← (← items v).mapM sourcePath }⟩,
     ⟨"ignored_canonical_fields",
       fun l v => do
         return { l with
           ignoredCanonical := OrderedSet.ofMembers (← (← items v).mapM canonicalPath) }⟩]
    {} .ok

/-- What has been read of a configuration. -/
structure Draft where
  name : Option String := none
  kind : Option String := none
  lateInitializer : LateInitializer := {}
  sensitive : OrderedMap String String := .empty
  references : OrderedMap FieldPath Reference := .empty

/-- A configuration. -/
def config : Value → Except ConfigFault Config :=
  readTable (σ := Draft)
    [⟨"name", fun d v => do return { d with name := some (← text v) }⟩,
     ⟨"kind", fun d v => do return { d with kind := some (← text v) }⟩,
     ⟨"late_initializer",
       fun d v => do return { d with lateInitializer := ← lateInitializer v }⟩,
     ⟨"sensitive", fun d v => do return { d with sensitive := ← sensitive v }⟩,
     ⟨"references", fun d v => do return { d with references := ← references v }⟩]
    {}
    fun d =>
      match d.name, d.kind with
      | none, _ => .error "name"
      | _, none => .error "kind"
      | some name, some kind => .ok ⟨name, kind, d.lateInitializer, d.sensitive, d.references⟩

end Config.Reader

namespace Config

/-- The greatest size of a configuration in bytes. -/
def maxBytes : Nat := 1024 * 1024

/-- Reads a TOML text, its rules unchecked. -/
def parse (s : List Char) : Except ConfigFault Config :=
  match Toml.parse? s with
  | none => .error .malformed
  | some entries => Reader.config (.table entries)

/-- Reads a TOML text and checks the rules. -/
def ofToml (s : List Char) : Except ConfigError Config :=
  if maxBytes < Text.byteLength s then .error .tooLarge
  else match parse s with
    | .error cause => .error (.fault cause)
    | .ok c =>
      match c.check with
      | some rule => .error (.breach rule)
      | none => .ok c

/-- Reads bytes: the size is checked first, then the encoding, then the text. -/
def ofBytes (bytes : List UInt8) : Except ConfigError Config :=
  if maxBytes < bytes.length then .error .tooLarge
  else match Text.decode? bytes with
    | none => .error .notUtf8
    | some s => ofToml s

end Config

end ResourceTypes
