import ResourceTypes.Build.Error
import ResourceTypes.Field.Secret

/-! # Fields at their site

A location follows an attribute through the conventions of names: source path, target path,
canonical path and the chain of names from which type names are made. A site is an attribute at
its location with all that decides how its field is written: `Site.base` is the field as the
attribute alone makes it, and `Site.tagged` applies the required flag and the overrides of the
description to its tags. -/

namespace ResourceTypes

/-- Where an attribute stands. -/
structure Location where
  source : FieldPath
  target : FieldPath
  canonical : CanonicalPath
  /-- The kind and the camel names of the attributes from the root on. -/
  names : List String
deriving DecidableEq, Repr

namespace Location

/-- The root of a kind. -/
def root (kind : String) : Location := ⟨.root, .root, .root, [kind]⟩

/-- The location of a field. -/
def field (l : Location) (name : FieldName) : Location :=
  ⟨l.source.child name.snake, l.target.child name.lowerCamel, l.canonical.child name.camel,
    l.names ++ [name.camel]⟩

/-- The location of any element of a collection. -/
def element (l : Location) : Location :=
  ⟨l.source.wildcard, l.target.wildcard, l.canonical, l.names⟩

/-- The chain of names, for messages. -/
def label (l : Location) : String := ".".intercalate l.names

end Location

/-- A value type that an attribute may have, in the type of what is observed or of what can be
set. -/
structure Variant where
  type : ValueType
  isObservation : Bool
deriving DecidableEq, Repr

/-- An attribute at its location. -/
structure Site where
  name : FieldName
  location : Location
  comment : Comment
  reference : Option Reference
  /-- The field may be left out; a referring field always may. -/
  optional : Bool
  sensitive : Bool

namespace Site

/-- The field that the attribute alone makes. -/
def plain (s : Site) (type : ValueType) : Field :=
  ⟨s.name.camel, type, ⟨s.name.tag ++ omitEmpty, s.name.snake ++ omitEmpty⟩⟩

/-- The field that the attribute makes, with a secret in place of a sensitive value. -/
def base (s : Site) (type : ValueType) : Except BuildError Field :=
  if s.sensitive then
    match secretField? s.name.camel type s.optional with
    | some secret => .ok ⟨secret.name, secret.type, ⟨secret.jsonTag, suppressedTag⟩⟩
    | none => .error (.invalidSensitiveType type s.name.camel)
  else .ok (s.plain type)

/-- The field must be given: as the description demands, else unless it is optional. -/
def required (s : Site) : Bool := s.comment.requiredOverride.getD (!s.optional)

/-- A tag without the option to leave the field out. -/
def withoutOmitEmpty (tag : String) : String :=
  match Text.before? omitEmpty.toList tag.toList with
  | some kept => String.ofList kept
  | none => tag

/-- The tags of the field: a field that can be set and must be given may not be left out, and
the description overrides both tags. -/
def tagged (s : Site) (isObservation : Bool) (f : Field) : Field :=
  let json := if !isObservation && s.required then withoutOmitEmpty f.tags.json else f.tags.json
  { f with tags := ⟨s.comment.jsonTag.getD json, s.comment.tfTag.getD f.tags.tf⟩ }

/-- The documentation of a field that can be set. -/
def parameterComment (s : Site) : Comment :=
  { s.comment with required := some s.required, reference := s.reference }

end Site

end ResourceTypes
