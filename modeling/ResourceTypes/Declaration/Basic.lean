import ResourceTypes.Declaration.ValueType
import ResourceTypes.OrderedMap

/-! # Generated declarations

The output of a build: a list of types, each with its fields in order, the documentation of
each field by the names of type and field, and the indexes of the two root types. -/

namespace ResourceTypes

/-- The serialisation tags of a field. -/
structure Tags where
  json : String
  tf : String
deriving DecidableEq, Repr

/-- A field of a generated type. -/
structure Field where
  name : String
  type : ValueType
  tags : Tags
deriving DecidableEq, Repr

/-- A generated type. -/
structure TypeDecl where
  name : String
  fields : List Field
deriving DecidableEq, Repr

/-- The first field of the given name. -/
def TypeDecl.field? (t : TypeDecl) (name : String) : Option Field :=
  t.fields.find? fun f => f.name == name

/-- The names of a type and a field, ordered by the type first. -/
instance Comments.keyOrd : Ord (String × String) := lexOrd

/-- The documentation of fields by the names of type and field. -/
abbrev Comments := OrderedMap (String × String) String

/-- The output of a build; the types of inner levels come first. -/
structure Generated where
  types : List TypeDecl
  comments : Comments
  /-- The index of the root type of what can be set. -/
  forProvider : Nat
  /-- The index of the root type of what is observed. -/
  atProvider : Nat
deriving DecidableEq

namespace Generated

/-- The first type of the given name. -/
def find? (g : Generated) (name : String) : Option TypeDecl :=
  g.types.find? fun t => t.name == name

/-- The root type of what can be set. -/
def forProviderType? (g : Generated) : Option TypeDecl := g.types[g.forProvider]?

/-- The root type of what is observed. -/
def atProviderType? (g : Generated) : Option TypeDecl := g.types[g.atProvider]?

end Generated

end ResourceTypes
