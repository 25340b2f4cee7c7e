import ResourceTypes.Config
import ResourceTypes.Declaration.Basic

/-! # Companions of references

A field that refers to another resource is followed by two optional fields: one names the
resource, or the resources when the field is a list, and one selects by label. Neither is
serialised for the provider. -/

namespace ResourceTypes

/-- The tag of a field that is not serialised. -/
def suppressedTag : String := "-"

/-- The option of a tag whose field may be left out. -/
def omitEmpty : String := ",omitempty"

/-- An optional field beside a referring one. -/
def companion (name : String) (type : ValueType) : Field :=
  ⟨name, type, ⟨(FieldName.ofCamel name).tag ++ omitEmpty, suppressedTag⟩⟩

/-- The companions of a referring field in order. -/
def companions (base : Field) (r : Reference) : List Field :=
  if base.type.isList then
    [companion (r.refFieldName.getD (base.name ++ "Refs")) (.list .reference),
     companion (r.selectorFieldName.getD (base.name ++ "Selector")) (.pointer .selector)]
  else
    [companion (r.refFieldName.getD (base.name ++ "Ref")) (.pointer .reference),
     companion (r.selectorFieldName.getD (base.name ++ "Selector")) (.pointer .selector)]

end ResourceTypes
