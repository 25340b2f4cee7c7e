import ResourceTypes.Proofs.Build.Resolution
import ResourceTypes.Proofs.Schema.Reached

/-! # Locations and source paths

The source path of an attribute determines its location for a kind: the target path has the same
wildcards and the names in lower camel form, the canonical path the names in camel form, and the
chain of names is the kind with these.  A build keeps to `Location.ofPath` on every step from the
root on (`field_ofPath`, `inside_ofPath`). -/

namespace ResourceTypes

/-- The segment with its name in lower camel form. -/
def Segment.lowerCamel : Segment → Segment
  | .field name => .field (FieldName.ofSnake name).lowerCamel
  | .wildcard => .wildcard

/-- The path with the same wildcards and the names in lower camel form. -/
def FieldPath.lowerCamel (p : FieldPath) : FieldPath := ⟨p.segments.map Segment.lowerCamel⟩

/-- The location of the attribute at a source path. -/
def Location.ofPath (kind : String) (p : FieldPath) : Location :=
  ⟨p, p.lowerCamel, p.canonical, kind :: p.canonical.names⟩

namespace Location

variable (kind : String) (p : FieldPath)

theorem root_eq_ofPath : root kind = ofPath kind .root := rfl

@[simp] theorem source_ofPath : (ofPath kind p).source = p := rfl

@[simp] theorem target_ofPath : (ofPath kind p).target = p.lowerCamel := rfl

@[simp] theorem field_ofPath (name : String) :
    (ofPath kind p).field (.ofSnake name) = ofPath kind (p.child name) := by
  simp [field, ofPath, FieldPath.canonical, FieldPath.lowerCamel, FieldPath.child,
    CanonicalPath.child, FieldPath.fields, Segment.name?, Segment.lowerCamel, FieldName.ofSnake]

@[simp] theorem element_ofPath : (ofPath kind p).element = ofPath kind p.wildcard := by
  simp [element, ofPath, FieldPath.canonical, FieldPath.lowerCamel, FieldPath.wildcard,
    FieldPath.fields, Segment.name?, Segment.lowerCamel]

@[simp] theorem inside_ofPath (a : Attribute) :
    (ofPath kind p).inside a = ofPath kind (p.inside a) := by
  unfold inside FieldPath.inside
  induction a.edges generalizing p with
  | zero => rfl
  | succ n ih => rw [Function.iterate_succ_apply, Function.iterate_succ_apply, element_ofPath, ih]

end Location

end ResourceTypes
