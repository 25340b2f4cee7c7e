import ResourceTypes.Json.Record
import ResourceTypes.OrderedMap
import ResourceTypes.Schema

/-! # Reading schemas

A schema document maps resource names to resources. It is read in one pass with a budget of
containers that may be open at once, so that no document nests deeper than `maxNesting`.
`Document.parse` reads a text, `Document.ofBytes` bytes of bounded size. -/

namespace ResourceTypes

open Json

/-- Resources by provider resource name. -/
structure Document where
  resources : OrderedMap String Resource

namespace Document

/-- The resource of the given name. -/
def resource? (d : Document) (name : String) : Option Resource := d.resources.get? name

end Document

namespace Schema

/-- The number of containers that may be open at once. -/
def maxNesting : Nat := 127

/-! ### Kinds and elements -/

/-- A kind stands by its label, or as the only key of an object around `null`. -/
def kindChoices : List (Choice ValueKind) :=
  ValueKind.all.map fun k => ⟨k.label, some k, fun s => (Reader.unit s).map fun r => (k, r.2)⟩

/-- Reads a kind. -/
def kind (nested : Bool) : Reader ValueKind := Reader.choice nested kindChoices

/-- The shapes of an element, given the readers of what they hold. -/
def elementChoices (kind : Reader ValueKind) (inner : Reader Attribute)
    (resource : Reader Resource) : List (Choice Element) :=
  [⟨"unset", some .unset, fun s => (Reader.unit s).map fun r => (.unset, r.2)⟩,
   ⟨"primitive", none, fun s => (kind s).map fun r => (.primitive r.1, r.2)⟩,
   ⟨"schema", none, fun s => (inner s).map fun r => (.schema r.1, r.2)⟩,
   ⟨"resource", none, fun s => (resource s).map fun r => (.resource r.1, r.2)⟩]

/-! ### Attributes -/

/-- What has been read of an attribute. -/
structure Draft where
  kind : Option ValueKind := none
  optional : Bool := false
  computed : Bool := false
  sensitive : Bool := false
  description : String := ""
  element : Element := .unset

/-- A field of an attribute, read by `read` and stored by `store`. -/
def slot {σ α : Type} (key : String) (read : Reader α) (store : σ → α → σ) : Slot σ :=
  ⟨key, fun state s => (read s).map fun r => (store state r.1, r.2)⟩

/-- How an attribute is read; only its kind must be given. -/
def attributeShape (kind : Reader ValueKind) (element : Reader Element) :
    Shape Draft Attribute where
  title := "struct AttributeSchema"
  slots :=
    [slot "type" kind fun d k => { d with kind := some k },
     slot "optional" Reader.boolean fun d b => { d with optional := b },
     slot "computed" Reader.boolean fun d b => { d with computed := b },
     slot "sensitive" Reader.boolean fun d b => { d with sensitive := b },
     slot "description" Reader.text fun d t => { d with description := t },
     slot "elem" element fun d e => { d with element := e }]
  start := {}
  complete d :=
    match d.kind with
    | none => .error "type"
    | some kind =>
      .ok (.mk ⟨kind, d.optional, d.computed, d.sensitive, d.description⟩ d.element)

/-! ### Resources -/

/-- How a resource is read. -/
def resourceShape (attributes : Reader (List (String × Attribute))) :
    Shape (List (String × Attribute)) Resource where
  title := "struct ResourceSchema"
  slots := [slot "attributes" attributes fun _ l => l]
  start := []
  complete l := .ok (.mk l)

/-- Reads the attributes of a resource by name. -/
def attributeEntries (fuel : Nat) (nested : Bool) (read : Reader Attribute) :
    Reader (List (String × Attribute)) :=
  Reader.entries fuel nested read (fun l name a => Resource.insertAttribute name a l) []

mutual

/-- Reads an attribute in which `budget` containers may be open. -/
def attributeWithin (fuel : Nat) : Nat → Reader Attribute
  | 0 => Reader.record fuel false (attributeShape .closed .closed)
  | budget + 1 =>
    Reader.record fuel true (attributeShape (kind (budget != 0)) (elementWithin fuel budget))

/-- Reads an element in which `budget` containers may be open. -/
def elementWithin (fuel : Nat) : Nat → Reader Element
  | 0 => Reader.choice false (elementChoices .closed .closed .closed)
  | budget + 1 =>
    Reader.choice true
      (elementChoices (kind (budget != 0)) (attributeWithin fuel budget)
        (resourceWithin fuel budget))

/-- Reads a resource in which `budget` containers may be open. -/
def resourceWithin (fuel : Nat) : Nat → Reader Resource
  | 0 => Reader.record fuel false (resourceShape .closed)
  | budget + 1 => Reader.record fuel true (resourceShape (attributesWithin fuel budget))

/-- Reads the attributes of a resource, in which `budget` containers may be open. -/
def attributesWithin (fuel : Nat) : Nat → Reader (List (String × Attribute))
  | 0 => attributeEntries fuel false .closed
  | budget + 1 => attributeEntries fuel true (attributeWithin fuel budget)

end

/-! ### Documents -/

/-- How a document is read. -/
def documentShape (resources : Reader (OrderedMap String Resource)) :
    Shape (OrderedMap String Resource) Document where
  title := "struct SchemaDocument"
  slots := [slot "resources" resources fun _ m => m]
  start := .empty
  complete m := .ok ⟨m⟩

/-- Reads the resources of a document by name. -/
def resourceEntries (fuel : Nat) (nested : Bool) (read : Reader Resource) :
    Reader (OrderedMap String Resource) :=
  Reader.entries fuel nested read (fun m name r => m.insert name r) .empty

/-- Reads the resources of a document, in which `budget` containers may be open. -/
def resourcesWithin (fuel : Nat) : Nat → Reader (OrderedMap String Resource)
  | 0 => resourceEntries fuel false .closed
  | budget + 1 => resourceEntries fuel true (resourceWithin fuel budget)

/-- Reads a document in which `budget` containers may be open. -/
def documentWithin (fuel : Nat) : Nat → Reader Document
  | 0 => Reader.record fuel false (documentShape .closed)
  | budget + 1 => Reader.record fuel true (documentShape (resourcesWithin fuel budget))

end Schema

/-- Bounds the loops of a reader on a text: each step of a loop reads a character, or
precedes one that does. -/
def Json.fuelFor (s : List Char) : Nat := 2 * s.length + 2

/-- Why there is no document. -/
inductive DocumentError where
  | unreadable (reason : String)
  | json (error : Json.ReadError)
  | tooLarge
  | notUtf8
deriving DecidableEq, Repr

namespace Document

/-- The greatest size of a document in bytes. -/
def maxBytes : Nat := 4 * 1024 * 1024

/-- Reads a text with a budget of nested containers. -/
def parseWithin (budget : Nat) (s : List Char) : Except Json.ReadError Document :=
  Json.readAll (Schema.documentWithin (Json.fuelFor s) budget) s

/-- Reads a text. -/
def parse (s : List Char) : Except Json.ReadError Document := parseWithin Schema.maxNesting s

/-- Reads bytes: the size is checked first, then the encoding, then the text. -/
def ofBytes (bytes : List UInt8) : Except DocumentError Document :=
  if maxBytes < bytes.length then .error .tooLarge
  else match Text.decode? bytes with
    | none => .error .notUtf8
    | some s =>
      match parse s with
      | .ok d => .ok d
      | .error e => .error (.json e)

end Document

/-- The wording of a document error. -/
def DocumentError.message : DocumentError → String
  | .unreadable reason => "schema io error: " ++ reason
  | .json error => "schema json error: " ++ error.message
  | .tooLarge =>
    "invalid schema document: schema document exceeds " ++ toString Document.maxBytes ++ " bytes"
  | .notUtf8 => "invalid schema document: schema document must be utf-8"

end ResourceTypes
