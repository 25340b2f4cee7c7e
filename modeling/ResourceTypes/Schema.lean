/-! # Schemas

The input of a build: a resource is a list of named attributes, an attribute has a kind and
flags, and a collection attribute has an element, which may be a further attribute or
a nested resource. Attributes are visited in the order of their names; `Resource.insert` keeps
a list in that order and `Resource.Ordered` says that every level of a resource is. -/

namespace ResourceTypes

/-- The kind of value that an attribute declares. -/
inductive ValueKind where
  | bool
  | float
  | int
  | string
  | list
  | set
  | map
  | invalid
deriving DecidableEq, Repr

namespace ValueKind

/-- The label of a kind in documents. -/
def label : ValueKind → String
  | .bool => "bool"
  | .float => "float"
  | .int => "int"
  | .string => "string"
  | .list => "list"
  | .set => "set"
  | .map => "map"
  | .invalid => "invalid"

/-- All kinds in the order in which messages list them. -/
def all : List ValueKind := [.bool, .float, .int, .string, .list, .set, .map, .invalid]

/-- The kind with the given label. -/
def ofLabel? (label : String) : Option ValueKind := all.find? fun k => k.label == label

/-- Lists, sets and maps. -/
def isCollection : ValueKind → Bool
  | .list | .set | .map => true
  | _ => false

theorem ofLabel?_label (k : ValueKind) : ofLabel? k.label = some k := by
  cases k <;> decide

end ValueKind

/-- What an attribute declares of itself, its element apart. -/
structure Traits where
  kind : ValueKind
  /-- The caller may leave the attribute out. -/
  optional : Bool := false
  /-- The provider computes the attribute. -/
  computed : Bool := false
  /-- The value must not be stored inline. -/
  sensitive : Bool := false
  description : String := ""
deriving DecidableEq, Repr

/-- The attribute is computed and cannot be set: a computed attribute that is optional too has
a default that the caller may override. -/
def Traits.isObservation (t : Traits) : Bool := t.computed && !t.optional

mutual

/-- One attribute of a resource, or the element of a collection. -/
inductive Attribute where
  | mk (traits : Traits) (element : Element)

/-- What a collection attribute holds; nothing declared stands for text. -/
inductive Element where
  | unset
  | primitive (kind : ValueKind)
  | schema (inner : Attribute)
  | resource (inner : Resource)

/-- Named attributes. -/
inductive Resource where
  | mk (attributes : List (String × Attribute))

end

instance : Inhabited Element := ⟨.unset⟩

instance : Inhabited Attribute := ⟨.mk { kind := .string } .unset⟩

namespace Attribute

/-- What the attribute declares of itself. -/
def traits : Attribute → Traits
  | .mk traits _ => traits

/-- The element of the attribute. -/
def element : Attribute → Element
  | .mk _ element => element

/-- The declared kind. -/
def kind (a : Attribute) : ValueKind := a.traits.kind

/-- The attribute is only observed. -/
def isObservation (a : Attribute) : Bool := a.traits.isObservation

end Attribute

/-- No element is declared. -/
def Element.isUnset : Element → Bool
  | .unset => true
  | _ => false

namespace Resource

/-- The named attributes in order. -/
def attributes : Resource → List (String × Attribute)
  | .mk attributes => attributes

/-- The resource without attributes. -/
def empty : Resource := .mk []

instance : Inhabited Resource := ⟨empty⟩

/-- Puts an attribute at its place, in place of one of the same name. -/
def insertAttribute (name : String) (a : Attribute) :
    List (String × Attribute) → List (String × Attribute)
  | [] => [(name, a)]
  | e :: rest =>
    match compare name e.1 with
    | .lt => (name, a) :: e :: rest
    | .eq => (name, a) :: rest
    | .gt => e :: insertAttribute name a rest

/-- The resource with attribute `a` under `name`. -/
def insert (r : Resource) (name : String) (a : Attribute) : Resource :=
  .mk (insertAttribute name a r.attributes)

/-- The resource of a list of attributes, where a later one replaces an earlier one of its
name. -/
def ofList (l : List (String × Attribute)) : Resource :=
  l.foldl (fun r e => r.insert e.1 e.2) empty

/-- The attribute of the given name. -/
def get? (r : Resource) (name : String) : Option Attribute :=
  (r.attributes.find? fun e => e.1 == name).map Prod.snd

/-- The attribute names in order. -/
def names (r : Resource) : List String := r.attributes.map Prod.fst

end Resource

/-! ### Order at every level -/

mutual

/-- Every resource in the attribute is in order. -/
def Attribute.Ordered : Attribute → Prop
  | .mk _ element => element.Ordered

/-- Every resource in the element is in order. -/
def Element.Ordered : Element → Prop
  | .unset => True
  | .primitive _ => True
  | .schema inner => inner.Ordered
  | .resource inner => inner.Ordered

/-- The names increase, here and in every nested resource. -/
def Resource.Ordered : Resource → Prop
  | .mk attributes =>
    attributes.Pairwise (fun a b => compare a.1 b.1 = .lt) ∧ AttributesOrdered attributes

/-- Every resource in one of the attributes is in order. -/
def AttributesOrdered : List (String × Attribute) → Prop
  | [] => True
  | (_, a) :: rest => a.Ordered ∧ AttributesOrdered rest

end

end ResourceTypes
