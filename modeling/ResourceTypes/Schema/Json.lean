import ResourceTypes.Json.Value
import ResourceTypes.Schema.Reader

/-! # Schemas as JSON

The document form of schemas: every field of an attribute is written but an element that is not
declared. -/

namespace ResourceTypes

mutual

/-- An attribute as JSON. -/
def Attribute.toJson : Attribute → Json
  | .mk traits element =>
    .object
      ([("type", .text traits.kind.label),
        ("optional", .boolean traits.optional),
        ("computed", .boolean traits.computed),
        ("sensitive", .boolean traits.sensitive),
        ("description", .text traits.description)] ++ element.toEntries)

/-- The entry of an element in its attribute. -/
def Element.toEntries : Element → List (String × Json)
  | .unset => []
  | .primitive kind => [("elem", .object [("primitive", .text kind.label)])]
  | .schema inner => [("elem", .object [("schema", inner.toJson)])]
  | .resource inner => [("elem", .object [("resource", inner.toJson)])]

/-- A resource as JSON. -/
def Resource.toJson : Resource → Json
  | .mk attributes => .object [("attributes", .object (attributesToJson attributes))]

/-- Attributes by name as the entries of an object. -/
def attributesToJson : List (String × Attribute) → List (String × Json)
  | [] => []
  | (name, a) :: rest => (name, a.toJson) :: attributesToJson rest

end

/-- A document as JSON. -/
def Document.toJson (d : Document) : Json :=
  .object [("resources", .object (d.resources.entries.map fun e => (e.1, e.2.toJson)))]

end ResourceTypes
