import Mathlib.Tactic.Common
import ResourceTypes.Name
import ResourceTypes.OrderedMap
import ResourceTypes.Proofs.Forest
import ResourceTypes.Schema

/-! # Nested resources

A collection attribute leads to a nested resource when its element is one, or is a collection
attribute that leads to one.  `Attribute.nested?` is that resource, so an attribute leads to at
most one, and `Resource.nested` is the forest of all resources nested in a resource, each under
the attribute of the enclosing resource that leads to it.  The forest with the attribute names
alone is the `skeleton` of the resource; it determines the chain of names from which the type
names of every level are made (`Resource.chains`).

Proofs about an attribute go along its element schemas (`Attribute.chain_induction`), proofs
about a resource along its nested resources (`Resource.attributes_induction`). -/

namespace ResourceTypes

/-! ### From an attribute to its nested resource -/

namespace Attribute

/-- The resource that the attribute leads to. -/
def nested? : Attribute → Option Resource
  | .mk traits (.schema inner) => if traits.kind.isCollection then inner.nested? else none
  | .mk traits (.resource inner) => if traits.kind.isCollection then some inner else none
  | .mk _ .unset | .mk _ (.primitive _) => none

/-- The collections that are passed on the way to the nested resource. -/
def edges : Attribute → Nat
  | .mk _ (.schema inner) => inner.edges + 1
  | .mk _ .unset | .mk _ (.primitive _) | .mk _ (.resource _) => 1

/-- The nested resource is the element of the attribute itself. -/
def holdsDirectly : Attribute → Bool
  | .mk _ (.resource _) => true
  | .mk _ .unset | .mk _ (.primitive _) | .mk _ (.schema _) => false

/-- What the collection declares whose element is the nested resource. -/
def innermost : Attribute → Traits
  | .mk _ (.schema inner) => inner.innermost
  | .mk traits .unset | .mk traits (.primitive _) | .mk traits (.resource _) => traits

/-- An attribute is no collection, a collection of one of the other elements, or a collection
of a further attribute. -/
@[elab_as_elim]
theorem chain_induction {P : Attribute → Prop}
    (scalar : ∀ traits element, traits.kind.isCollection = false → P (.mk traits element))
    (unset : ∀ traits, traits.kind.isCollection = true → P (.mk traits .unset))
    (primitive : ∀ traits kind, traits.kind.isCollection = true → P (.mk traits (.primitive kind)))
    (resource : ∀ traits inner, traits.kind.isCollection = true → P (.mk traits (.resource inner)))
    (schema : ∀ traits inner, traits.kind.isCollection = true → P inner →
      P (.mk traits (.schema inner))) : ∀ a, P a
  | .mk traits element => by
      cases hk : traits.kind.isCollection with
      | false => exact scalar traits element hk
      | true =>
          cases element with
          | unset => exact unset traits hk
          | primitive kind => exact primitive traits kind hk
          | resource inner => exact resource traits inner hk
          | schema inner =>
              exact schema traits inner hk
                (chain_induction scalar unset primitive resource schema inner)

theorem nested?_scalar {traits : Traits} (element : Element)
    (h : traits.kind.isCollection = false) : (mk traits element).nested? = none := by
  cases element <;> simp [nested?, h]

theorem nested?_of_kind {a : Attribute} (h : a.kind.isCollection = false) : a.nested? = none := by
  obtain ⟨traits, element⟩ := a
  exact nested?_scalar element h

theorem nested?_schema {traits : Traits} (inner : Attribute)
    (h : traits.kind.isCollection = true) :
    (mk traits (.schema inner)).nested? = inner.nested? := by
  simp [nested?, h]

theorem nested?_resource {traits : Traits} (inner : Resource)
    (h : traits.kind.isCollection = true) : (mk traits (.resource inner)).nested? = some inner := by
  simp [nested?, h]

theorem sizeOf_nested? {a : Attribute} {r : Resource} (h : a.nested? = some r) :
    sizeOf r < sizeOf a := by
  induction a using chain_induction with
  | scalar traits element hk => simp [nested?_scalar element hk] at h
  | unset traits hk => simp [nested?] at h
  | primitive traits kind hk => simp [nested?] at h
  | resource traits inner hk =>
      rw [nested?_resource inner hk] at h
      cases h
      simp only [mk.sizeOf_spec, Element.resource.sizeOf_spec]
      omega
  | schema traits inner hk ih =>
      rw [nested?_schema inner hk] at h
      have := ih h
      simp only [mk.sizeOf_spec, Element.schema.sizeOf_spec]
      omega

end Attribute

/-! ### From a resource to its nested resources -/

/-- A first attribute leads to a nested resource or to none. -/
@[elab_as_elim]
theorem Resource.attributes_induction {P : List (String × Attribute) → Prop} (nil : P [])
    (flat : ∀ name a rest, a.nested? = none → P rest → P ((name, a) :: rest))
    (nested : ∀ name a inner rest, a.nested? = some (.mk inner) → P inner → P rest →
      P ((name, a) :: rest)) : ∀ attributes, P attributes
  | [] => nil
  | (name, a) :: rest =>
      match h : a.nested? with
      | none => flat name a rest h (attributes_induction nil flat nested rest)
      | some (.mk inner) =>
          nested name a inner rest h (attributes_induction nil flat nested inner)
            (attributes_induction nil flat nested rest)
termination_by attributes => sizeOf attributes
decreasing_by
  all_goals simp only [List.cons.sizeOf_spec, Prod.mk.sizeOf_spec]
  · omega
  · have := Attribute.sizeOf_nested? h
    rw [Resource.mk.sizeOf_spec] at this
    omega
  · omega

mutual

/-- The resources nested in a resource, each under the attribute that leads to it. -/
def Resource.nested : Resource → Forest (String × Attribute)
  | .mk attributes => nestedIn attributes

/-- The resources nested in those to which the attributes lead. -/
def nestedIn : List (String × Attribute) → Forest (String × Attribute)
  | [] => .nil
  | (name, a) :: rest => a.graft (name, a) (nestedIn rest)

/-- The tree of the resource to which the attribute leads, in front of `siblings`. -/
def Attribute.graft :
    Attribute → String × Attribute → Forest (String × Attribute) → Forest (String × Attribute)
  | .mk traits element, label, siblings =>
    if traits.kind.isCollection then element.graft label siblings else siblings

/-- The tree of the resource to which the element leads, in front of `siblings`. -/
def Element.graft :
    Element → String × Attribute → Forest (String × Attribute) → Forest (String × Attribute)
  | .unset, _, siblings => siblings
  | .primitive _, _, siblings => siblings
  | .schema inner, label, siblings => inner.graft label siblings
  | .resource inner, label, siblings => .node label inner.nested siblings

end

theorem Attribute.graft_eq (a : Attribute) (label : String × Attribute)
    (siblings : Forest (String × Attribute)) :
    a.graft label siblings =
      match a.nested? with
      | none => siblings
      | some inner => .node label inner.nested siblings := by
  induction a using Attribute.chain_induction with
  | scalar traits element hk => simp [Attribute.graft, hk, Attribute.nested?_scalar element hk]
  | unset traits hk => simp [Attribute.graft, Element.graft, Attribute.nested?]
  | primitive traits kind hk => simp [Attribute.graft, Element.graft, Attribute.nested?]
  | resource traits inner hk =>
      simp [Attribute.graft, Element.graft, hk, Attribute.nested?_resource inner hk]
  | schema traits inner hk ih =>
      simp [Attribute.graft, Element.graft, hk, Attribute.nested?_schema inner hk, ih]

@[simp] theorem nestedIn_nil : nestedIn [] = .nil := by rw [nestedIn]

theorem nestedIn_cons_flat {name : String} {a : Attribute} (rest : List (String × Attribute))
    (h : a.nested? = none) : nestedIn ((name, a) :: rest) = nestedIn rest := by
  simp only [nestedIn, Attribute.graft_eq, h]

theorem nestedIn_cons_nested {name : String} {a : Attribute} {inner : List (String × Attribute)}
    (rest : List (String × Attribute)) (h : a.nested? = some (.mk inner)) :
    nestedIn ((name, a) :: rest) = .node (name, a) (nestedIn inner) (nestedIn rest) := by
  simp only [nestedIn, Attribute.graft_eq, h, Resource.nested]

theorem nested?_of_mem_nestedIn {attributes : List (String × Attribute)} :
    ∀ v ∈ (nestedIn attributes).preorder, ∃ r, v.2.nested? = some r := by
  induction attributes using Resource.attributes_induction with
  | nil => simp [Forest.preorder]
  | flat name a rest h ih =>
      rw [nestedIn_cons_flat rest h]
      exact ih
  | nested name a inner rest h ihi ihr =>
      rw [nestedIn_cons_nested rest h, Forest.preorder]
      rintro v (_ | ⟨_, hv⟩)
      · exact ⟨_, h⟩
      · exact (List.mem_append.mp hv).elim (ihi v) (ihr v)

/-! ### Skeletons and chains -/

/-- The forest of nested resources with the names of the attributes alone. -/
def Resource.skeleton (r : Resource) : Forest String := r.nested.map Prod.fst

/-- The chains of names of the resources below one with the given chain. -/
def Forest.chains (chain : List String) : Forest String → Forest (List String)
  | .nil => .nil
  | .node name children siblings =>
    let inner := chain ++ [(FieldName.ofSnake name).camel]
    .node inner (children.chains inner) (siblings.chains chain)

/-- The chains of names of a resource of the given kind and of all resources nested in it. -/
def Resource.chains (r : Resource) (kind : String) : Forest (List String) :=
  .node [kind] (r.skeleton.chains [kind]) .nil

/-- Siblings stand in the order of their names. -/
def Forest.Increasing (f : Forest String) : Prop :=
  f.roots.Pairwise (fun a b => compare a b = .lt) ∧
    ∀ p ∈ f.families, p.2.Pairwise fun a b => compare a b = .lt

theorem Resource.ordered_cons {name : String} {a : Attribute} {rest : List (String × Attribute)} :
    (Resource.mk ((name, a) :: rest)).Ordered ↔
      (∀ e ∈ rest, compare name e.1 = .lt) ∧ a.Ordered ∧ (Resource.mk rest).Ordered := by
  simp only [Resource.Ordered, AttributesOrdered, List.pairwise_cons]
  tauto

theorem Resource.Ordered.pairwise {attributes : List (String × Attribute)}
    (h : (Resource.mk attributes).Ordered) :
    attributes.Pairwise fun e e' => compare e.1 e'.1 = .lt := by
  rw [Resource.Ordered] at h
  exact h.1

theorem Resource.Ordered.name_not_mem {name : String} {a : Attribute}
    {rest : List (String × Attribute)} (h : (Resource.mk ((name, a) :: rest)).Ordered) :
    name ∉ rest.map Prod.fst := by
  intro hmem
  obtain ⟨e, he, hname⟩ := List.mem_map.mp hmem
  exact KeyOrder.ne_of_lt ((ordered_cons.mp h).1 e he) hname.symm

theorem Attribute.ordered_nested? {a : Attribute} {r : Resource} (h : a.nested? = some r)
    (ha : a.Ordered) : r.Ordered := by
  induction a using Attribute.chain_induction with
  | scalar traits element hk => simp [Attribute.nested?_scalar element hk] at h
  | unset traits hk => simp [Attribute.nested?] at h
  | primitive traits kind hk => simp [Attribute.nested?] at h
  | resource traits inner hk =>
      rw [Attribute.nested?_resource inner hk] at h
      cases h
      simpa only [Attribute.Ordered, Element.Ordered] using ha
  | schema traits inner hk ih =>
      rw [Attribute.nested?_schema inner hk] at h
      exact ih h (by simpa only [Attribute.Ordered, Element.Ordered] using ha)

theorem roots_nestedIn_sublist (attributes : List (String × Attribute)) :
    (nestedIn attributes).roots.Sublist attributes := by
  induction attributes using Resource.attributes_induction with
  | nil => simp [Forest.roots]
  | flat name a rest h ih =>
      rw [nestedIn_cons_flat rest h]
      exact ih.cons _
  | nested name a inner rest h _ ih =>
      rw [nestedIn_cons_nested rest h]
      exact ih.cons_cons _

theorem Resource.increasing_skeleton {r : Resource} (h : r.Ordered) : r.skeleton.Increasing := by
  obtain ⟨attributes⟩ := r
  have key : ∀ attributes, (Resource.mk attributes).Ordered →
      ((nestedIn attributes).map Prod.fst).Increasing := by
    intro attributes
    induction attributes using Resource.attributes_induction with
    | nil => simp [Forest.map, Forest.Increasing, Forest.roots, Forest.families]
    | flat name a rest ha ih =>
        intro h
        rw [nestedIn_cons_flat rest ha]
        exact ih (ordered_cons.mp h).2.2
    | nested name a inner rest ha ihi ihr =>
        intro h
        have hroots : ((nestedIn ((name, a) :: rest)).map Prod.fst).roots.Pairwise
            fun a b => compare a b = .lt := by
          rw [Forest.roots_map, List.pairwise_map]
          exact h.pairwise.sublist (roots_nestedIn_sublist _)
        obtain ⟨-, ha', hrest⟩ := ordered_cons.mp h
        obtain ⟨hi, hfi⟩ := ihi (Attribute.ordered_nested? ha ha')
        obtain ⟨-, hfr⟩ := ihr hrest
        refine ⟨hroots, fun p hp => ?_⟩
        rw [nestedIn_cons_nested rest ha, Forest.map, Forest.families] at hp
        rcases List.mem_cons.mp hp with rfl | hp
        · exact hi
        · exact (List.mem_append.mp hp).elim (hfi p) (hfr p)
  rw [Resource.skeleton, Resource.nested]
  exact key attributes h

end ResourceTypes
