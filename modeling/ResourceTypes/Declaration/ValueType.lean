import ResourceTypes.Schema

/-! # Value types

The types of generated fields. `ValueType.text` is the spelling in declarations;
`ValueType.named?` is the generated type that a type mentions, at whatever depth. -/

namespace ResourceTypes

/-- Scalar types. -/
inductive Primitive where
  | bool
  | float64
  | int64
  | string
deriving DecidableEq, Repr

namespace Primitive

/-- The scalar type of a kind; collections have none. -/
def ofKind? : ValueKind → Option Primitive
  | .bool => some .bool
  | .float => some .float64
  | .int => some .int64
  | .string => some .string
  | .list | .set | .map | .invalid => none

/-- The spelling of a scalar type. -/
def text : Primitive → String
  | .bool => "bool"
  | .float64 => "float64"
  | .int64 => "int64"
  | .string => "string"

end Primitive

/-- The type of a generated field. -/
inductive ValueType where
  | primitive (kind : Primitive)
  /-- A value that may be absent. -/
  | pointer (inner : ValueType)
  /-- A generated type. -/
  | named (name : String)
  | list (inner : ValueType)
  /-- A map with text keys. -/
  | map (inner : ValueType)
  /-- A key of a secret. -/
  | secretKeySelector
  /-- Another resource by name. -/
  | reference
  /-- Other resources by label. -/
  | selector
deriving DecidableEq, Repr, Inhabited

namespace ValueType

/-- The spelling of a type. -/
def text : ValueType → String
  | .primitive kind => kind.text
  | .pointer inner => "*" ++ inner.text
  | .named name => name
  | .list inner => "[]" ++ inner.text
  | .map inner => "map[string]" ++ inner.text
  | .secretKeySelector => "v1.SecretKeySelector"
  | .reference => "v1.Reference"
  | .selector => "v1.Selector"

/-- A text, or a text that may be absent. -/
def isStringLike : ValueType → Bool
  | .primitive .string | .pointer (.primitive .string) => true
  | _ => false

/-- A list. -/
def isList : ValueType → Bool
  | .list _ => true
  | _ => false

/-- The generated type that a type mentions, if any. -/
def named? : ValueType → Option String
  | .named name => some name
  | .pointer inner | .list inner | .map inner => inner.named?
  | .primitive _ | .secretKeySelector | .reference | .selector => none

end ValueType

end ResourceTypes
