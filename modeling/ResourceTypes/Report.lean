import ResourceTypes.Config
import ResourceTypes.Declaration.Basic
import ResourceTypes.Json.Value

/-! # Build reports

The generated declarations and the configuration after a build as JSON. -/

namespace ResourceTypes

/-- A field as JSON. -/
def Field.toJson (f : Field) : Json :=
  .object
    [("name", .text f.name),
     ("type", .text f.type.text),
     ("tags", .object [("json", .text f.tags.json), ("tf", .text f.tags.tf)])]

/-- A type as JSON. -/
def TypeDecl.toJson (t : TypeDecl) : Json :=
  .object [("name", .text t.name), ("fields", .list (t.fields.map Field.toJson))]

/-- Documentation as JSON, keyed by type and field with a dot between them. -/
def Comments.toJson (c : Comments) : Json :=
  .object (c.entries.map fun e => (e.1.1 ++ "." ++ e.1.2, .text e.2))

/-- Generated declarations as JSON. -/
def Generated.toJson (g : Generated) : Json :=
  .object
    [("types", .list (g.types.map TypeDecl.toJson)),
     ("comments", Comments.toJson g.comments),
     ("for_provider", .number g.forProvider),
     ("at_provider", .number g.atProvider)]

/-- A reference as JSON. -/
def Reference.toJson (r : Reference) : Json :=
  .object
    [("type", .text r.typeName),
     ("extractor", .ofText? r.extractor),
     ("ref_field_name", .ofText? r.refFieldName),
     ("selector_field_name", .ofText? r.selectorFieldName)]

/-- The ignored fields as JSON. -/
def LateInitializer.toJson (l : LateInitializer) : Json :=
  .object
    [("ignored_fields", .list (l.ignoredFields.map fun p => .text p.spelled)),
     ("ignored_canonical_fields",
       .list (l.ignoredCanonical.keys.map fun p => .text p.spelled))]

/-- A configuration as JSON. -/
def Config.toJson (c : Config) : Json :=
  .object
    [("name", .text c.name),
     ("kind", .text c.kind),
     ("late_initializer", c.lateInitializer.toJson),
     ("sensitive",
       .object [("field_paths", .object (c.sensitive.entries.map fun e => (e.1, .text e.2)))]),
     ("references", .object (c.references.entries.map fun e => (e.1.spelled, e.2.toJson)))]

/-- The report of a build that succeeded. -/
def buildReport (g : Generated) (c : Config) : Json :=
  .object [("generated", g.toJson), ("config", c.toJson)]

end ResourceTypes
