import ResourceTypes.OrderedMap
import ResourceTypes.Path

/-! # Resource configurations

A configuration names the provider resource and the kind that is generated for it, lists the
fields that are never filled in from observed state, and gives cross-resource references by
source path. A build reads it and writes two registries back: the ignored fields in canonical
form, and the target path of each sensitive field. `Config.check` gives the first rule that a
configuration breaks. -/

namespace ResourceTypes

/-- A reference from a field to another resource. -/
structure Reference where
  typeName : String
  extractor : Option String := none
  /-- The name of the generated reference field, if it is not the usual one. -/
  refFieldName : Option String := none
  /-- The name of the generated selector field, if it is not the usual one. -/
  selectorFieldName : Option String := none
deriving DecidableEq, Repr

/-- The fields that are never filled in from observed state. -/
structure LateInitializer where
  ignoredFields : List FieldPath := []
  ignoredCanonical : OrderedSet CanonicalPath := .empty
deriving DecidableEq

/-- The configuration of one resource. -/
structure Config where
  name : String
  kind : String
  lateInitializer : LateInitializer := {}
  /-- Target paths by source path of sensitive fields. -/
  sensitive : OrderedMap String String := .empty
  references : OrderedMap FieldPath Reference := .empty
deriving DecidableEq

/-! ### Registries -/

namespace LateInitializer

/-- A source path is ignored when an entry names the same fields. -/
def ignoresSource (l : LateInitializer) (p : FieldPath) : Bool :=
  l.ignoredFields.any fun q => q.sameFields p

/-- A canonical path is ignored when it is registered. -/
def ignoresCanonical (l : LateInitializer) (p : CanonicalPath) : Bool :=
  l.ignoredCanonical.contains p

/-- Registers a canonical path. -/
def addCanonical (l : LateInitializer) (p : CanonicalPath) : LateInitializer :=
  { l with ignoredCanonical := l.ignoredCanonical.add p }

end LateInitializer

namespace Config

/-- The configuration with a further reference. -/
def withReference (c : Config) (p : FieldPath) (r : Reference) : Config :=
  { c with references := c.references.insert p r }

/-- The configuration with a further ignored field. -/
def withIgnoredField (c : Config) (p : FieldPath) : Config :=
  { c with lateInitializer.ignoredFields := c.lateInitializer.ignoredFields ++ [p] }

/-- The reference of the least key that names the fields of the path. -/
def referenceFor? (c : Config) (p : FieldPath) : Option Reference :=
  (c.references.entries.find? fun e => e.1.sameFields p).map Prod.snd

/-- The configuration with a canonical path registered. -/
def addCanonical (c : Config) (p : CanonicalPath) : Config :=
  { c with lateInitializer := c.lateInitializer.addCanonical p }

/-- The configuration with the target of a sensitive field registered. -/
def addSensitive (c : Config) (source target : String) : Config :=
  { c with sensitive := c.sensitive.insert source target }

/-- The registered target of a sensitive field. -/
def targetFor? (c : Config) (source : String) : Option String := c.sensitive.get? source

end Config

/-! ### Rules -/

/-- The greatest length of a kind in bytes. -/
def maxKindBytes : Nat := 128

/-- The greatest number of ignored fields in both forms. -/
def maxIgnoredFields : Nat := 512

/-- The greatest number of references. -/
def maxReferences : Nat := 512

/-- The rule that a configuration breaks. -/
inductive Breach where
  | blankName
  | emptyKind
  | longKind
  | badKind
  | manyIgnoredFields
  | manyReferences
  | blankType (path : FieldPath)
  | badRefFieldName (path : FieldPath)
  | badSelectorFieldName (path : FieldPath)
deriving DecidableEq, Repr

/-- The wording of a breach. -/
def Breach.message : Breach → String
  | .blankName => "name must be non-empty"
  | .emptyKind => "kind must be non-empty"
  | .longKind => "kind exceeds max length"
  | .badKind => "kind must start with an upper-case letter and be alphanumeric"
  | .manyIgnoredFields =>
    "late_initializer entries exceed limit of " ++ toString maxIgnoredFields
  | .manyReferences => "references exceed limit of " ++ toString maxReferences
  | .blankType path => "references." ++ path.spelled ++ ".type must be non-empty"
  | .badRefFieldName path =>
    "references." ++ path.spelled ++ ".ref_field_name must be an upper camel identifier"
  | .badSelectorFieldName path =>
    "references." ++ path.spelled ++ ".selector_field_name must be an upper camel identifier"

/-- An ASCII capital, then ASCII letters and digits. -/
def isUpperCamel (s : String) : Bool :=
  match s.toList with
  | [] => false
  | c :: rest => c.isUpper && rest.all Char.isAlphanum

/-- The rule that a reference breaks. -/
def Reference.check (path : FieldPath) (r : Reference) : Option Breach :=
  if Text.blank r.typeName.toList then some (.blankType path)
  else if r.refFieldName.any fun n => !isUpperCamel n then some (.badRefFieldName path)
  else if r.selectorFieldName.any fun n => !isUpperCamel n then some (.badSelectorFieldName path)
  else none

namespace Config

/-- The first rule that the configuration breaks. -/
def check (c : Config) : Option Breach :=
  if Text.blank c.name.toList then some .blankName
  else if c.kind.isEmpty then some .emptyKind
  else if maxKindBytes < c.kind.utf8ByteSize then some .longKind
  else if !isUpperCamel c.kind then some .badKind
  else if maxIgnoredFields <
      c.lateInitializer.ignoredFields.length + c.lateInitializer.ignoredCanonical.size then
    some .manyIgnoredFields
  else if maxReferences < c.references.size then some .manyReferences
  else c.references.entries.findSome? fun e => e.2.check e.1

/-- A configuration that breaks no rule. -/
def Valid (c : Config) : Prop := c.check = none

instance (c : Config) : Decidable c.Valid := inferInstanceAs (Decidable (c.check = none))

end Config

end ResourceTypes
