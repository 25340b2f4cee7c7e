import Mathlib.Logic.Function.Iterate
import ResourceTypes.Path
import ResourceTypes.Proofs.Schema.Nested

/-! # Reached attributes

A build reaches the attributes of the root and of every nested resource.  `Resource.reached`
lists them in the order in which they are visited, each with the path of its resource and with the
attributes that lead to it from the root; a collection on the way adds a wildcard to the path.
`Attribute.nodes` are the attribute itself and the element schemas that its collections pass
through.

A path leads to one attribute only when the attributes of every resource have distinct names
(`nodup_paths_reachedIn`), and every name on the path of a reached attribute is the name of one
(`mem_names_of_mem_fields`). -/

namespace ResourceTypes

/-! ### Paths into collections -/

namespace FieldPath

/-- The number of collections that the path enters. -/
def depth (p : FieldPath) : Nat := p.segments.count .wildcard

/-- The path of the resource to which the attribute at the path leads. -/
def inside (p : FieldPath) (a : Attribute) : FieldPath := wildcard^[a.edges] p

@[simp] theorem depth_root : root.depth = 0 := rfl

@[simp] theorem depth_child (p : FieldPath) (name : String) : (p.child name).depth = p.depth := by
  simp [depth, child]

@[simp] theorem depth_wildcard (p : FieldPath) : p.wildcard.depth = p.depth + 1 := by
  simp [depth, wildcard]

theorem segments_iterate_wildcard (n : Nat) (p : FieldPath) :
    (wildcard^[n] p).segments = p.segments ++ List.replicate n .wildcard := by
  induction n generalizing p with
  | zero => simp
  | succ n ih => simp [ih, wildcard, List.replicate_succ]

theorem segments_inside (p : FieldPath) (a : Attribute) :
    (p.inside a).segments = p.segments ++ List.replicate a.edges .wildcard :=
  segments_iterate_wildcard a.edges p

theorem segments_inside_child (p : FieldPath) (name : String) (a : Attribute)
    (more : List Segment) : ((p.child name).inside a).segments ++ more =
      p.segments ++ .field name :: (List.replicate a.edges .wildcard ++ more) := by
  simp [segments_inside, child]

@[simp] theorem depth_inside (p : FieldPath) (a : Attribute) :
    (p.inside a).depth = p.depth + a.edges := by
  simp [depth, segments_inside]

@[simp] theorem fields_root : root.fields = [] := rfl

@[simp] theorem fields_child (p : FieldPath) (name : String) :
    (p.child name).fields = p.fields ++ [name] := by
  simp [fields, child, Segment.name?]

@[simp] theorem fields_wildcard (p : FieldPath) : p.wildcard.fields = p.fields := by
  simp [fields, wildcard, Segment.name?]

@[simp] theorem fields_inside (p : FieldPath) (a : Attribute) : (p.inside a).fields = p.fields := by
  simp [fields, segments_inside, Segment.name?]

end FieldPath

/-! ### Nodes of an attribute -/

/-- The attribute at the path and the element schemas inside it, each with its path. -/
def Attribute.nodes : Attribute → FieldPath → List (FieldPath × Attribute)
  | .mk traits (.schema inner), p =>
    (p, .mk traits (.schema inner)) ::
      if traits.kind.isCollection then inner.nodes p.wildcard else []
  | .mk traits .unset, p => [(p, .mk traits .unset)]
  | .mk traits (.primitive kind), p => [(p, .mk traits (.primitive kind))]
  | .mk traits (.resource inner), p => [(p, .mk traits (.resource inner))]

namespace Attribute

theorem nodes_scalar {traits : Traits} (element : Element) (p : FieldPath)
    (h : traits.kind.isCollection = false) :
    (mk traits element).nodes p = [(p, mk traits element)] := by
  cases element <;> simp [nodes, h]

theorem nodes_schema {traits : Traits} (inner : Attribute) (p : FieldPath)
    (h : traits.kind.isCollection = true) :
    (mk traits (.schema inner)).nodes p =
      (p, mk traits (.schema inner)) :: inner.nodes p.wildcard := by
  simp [nodes, h]

theorem self_mem_nodes : ∀ (a : Attribute) (p : FieldPath), (p, a) ∈ a.nodes p
  | .mk _ .unset, _ | .mk _ (.primitive _), _ | .mk _ (.schema _), _ | .mk _ (.resource _), _ => by
      simp [nodes]

end Attribute

/-! ### Reached attributes -/

/-- An attribute of the root or of a nested resource. -/
structure Reached where
  /-- The path of the resource that has the attribute. -/
  level : FieldPath
  /-- The attributes that lead from the root to that resource. -/
  above : List Attribute
  name : String
  attr : Attribute

/-- The path of the attribute. -/
def Reached.path (r : Reached) : FieldPath := r.level.child r.name

mutual

/-- The attributes of a resource at a path and of the resources nested in it. -/
def Resource.reachedFrom : Resource → FieldPath → List Attribute → List Reached
  | .mk attributes, p, above => reachedIn attributes p above

/-- Some attributes of a resource at a path with those of the resources to which they lead. -/
def reachedIn : List (String × Attribute) → FieldPath → List Attribute → List Reached
  | [], _, _ => []
  | (name, a) :: rest, p, above =>
    ⟨p, above, name, a⟩ ::
      (a.reachedBelow (p.child name) (above ++ [a]) ++ reachedIn rest p above)

/-- The attributes of the resource to which the attribute at a path leads. -/
def Attribute.reachedBelow : Attribute → FieldPath → List Attribute → List Reached
  | .mk traits element, p, above =>
    if traits.kind.isCollection then element.reachedBelow p.wildcard above else []

/-- The attributes of the resource to which the element at a path leads. -/
def Element.reachedBelow : Element → FieldPath → List Attribute → List Reached
  | .unset, _, _ => []
  | .primitive _, _, _ => []
  | .schema inner, p, above => inner.reachedBelow p above
  | .resource inner, p, above => inner.reachedFrom p above

end

/-- All attributes that a build of the resource reaches. -/
def Resource.reached (r : Resource) : List Reached := r.reachedFrom .root []

theorem Attribute.reachedBelow_eq (a : Attribute) (p : FieldPath) (above : List Attribute) :
    a.reachedBelow p above =
      match a.nested? with
      | none => []
      | some r => r.reachedFrom (p.inside a) above := by
  induction a using Attribute.chain_induction generalizing p with
  | scalar traits element hk =>
      simp [Attribute.reachedBelow, hk, Attribute.nested?_scalar element hk]
  | unset traits hk => simp [Attribute.reachedBelow, Element.reachedBelow, Attribute.nested?]
  | primitive traits kind hk =>
      simp [Attribute.reachedBelow, Element.reachedBelow, Attribute.nested?]
  | resource traits inner hk =>
      simp [Attribute.reachedBelow, Element.reachedBelow, hk, Attribute.nested?_resource inner hk,
        FieldPath.inside, Attribute.edges]
  | schema traits inner hk ih =>
      simp [Attribute.reachedBelow, Element.reachedBelow, hk, Attribute.nested?_schema inner hk, ih,
        FieldPath.inside, Attribute.edges]

@[simp] theorem reachedIn_nil (p : FieldPath) (above : List Attribute) :
    reachedIn [] p above = [] := by
  rw [reachedIn]

theorem reachedIn_cons_flat {name : String} {a : Attribute} (rest : List (String × Attribute))
    (p : FieldPath) (above : List Attribute) (h : a.nested? = none) :
    reachedIn ((name, a) :: rest) p above = ⟨p, above, name, a⟩ :: reachedIn rest p above := by
  rw [reachedIn, Attribute.reachedBelow_eq, h, List.nil_append]

theorem reachedIn_cons_nested {name : String} {a : Attribute} {inner : List (String × Attribute)}
    (rest : List (String × Attribute)) (p : FieldPath) (above : List Attribute)
    (h : a.nested? = some (.mk inner)) :
    reachedIn ((name, a) :: rest) p above =
      ⟨p, above, name, a⟩ ::
        (reachedIn inner ((p.child name).inside a) (above ++ [a]) ++ reachedIn rest p above) := by
  rw [reachedIn, Attribute.reachedBelow_eq, h]
  simp only [Resource.reachedFrom]

theorem mem_reachedIn_of_mem {attributes : List (String × Attribute)} (p : FieldPath)
    (above : List Attribute) {name : String} {a : Attribute} (h : (name, a) ∈ attributes) :
    ⟨p, above, name, a⟩ ∈ reachedIn attributes p above := by
  induction attributes with
  | nil => cases h
  | cons first rest ih =>
      rw [reachedIn]
      rcases List.mem_cons.mp h with rfl | h
      · exact List.mem_cons_self
      · exact List.mem_cons_of_mem _ (List.mem_append_right _ (ih h))

theorem Reached.forall_fields_path {r : Reached} {P : String → Prop} :
    (∀ n ∈ r.path.fields, P n) ↔ (∀ n ∈ r.level.fields, P n) ∧ P r.name := by
  rw [path, FieldPath.fields_child, List.forall_mem_append, List.forall_mem_singleton]

theorem above_subset_of_mem {attributes : List (String × Attribute)} {p : FieldPath}
    {above : List Attribute} {r : Reached} (h : r ∈ reachedIn attributes p above) :
    above ⊆ r.above := by
  induction attributes using Resource.attributes_induction generalizing p above with
  | nil => simp at h
  | flat name a rest ha ih =>
      rw [reachedIn_cons_flat rest p above ha] at h
      rcases List.mem_cons.mp h with rfl | h
      · exact List.Subset.refl _
      · exact ih h
  | nested name a inner rest ha ihi ihr =>
      rw [reachedIn_cons_nested rest p above ha] at h
      rcases List.mem_cons.mp h with rfl | h
      · exact List.Subset.refl _
      rcases List.mem_append.mp h with h | h
      · exact List.Subset.trans (List.subset_append_left above [a]) (ihi h)
      · exact ihr h

/-! ### Paths of reached attributes -/

/-- The path of a reached attribute continues the path at which it was sought with the name of
one of the attributes there. -/
theorem segments_path_of_mem {attributes : List (String × Attribute)} {p : FieldPath}
    {above : List Attribute} {r : Reached} (h : r ∈ reachedIn attributes p above) :
    ∃ name ∈ attributes.map Prod.fst, ∃ more,
      r.path.segments = p.segments ++ .field name :: more := by
  induction attributes using Resource.attributes_induction generalizing p above with
  | nil => simp at h
  | flat name a rest ha ih =>
      rw [reachedIn_cons_flat rest p above ha] at h
      rcases List.mem_cons.mp h with rfl | h
      · exact ⟨name, by simp, [], rfl⟩
      · obtain ⟨n, hn, more, hr⟩ := ih h
        exact ⟨n, List.mem_cons_of_mem _ hn, more, hr⟩
  | nested name a inner rest ha ihi ihr =>
      rw [reachedIn_cons_nested rest p above ha] at h
      rcases List.mem_cons.mp h with rfl | h
      · exact ⟨name, by simp, [], rfl⟩
      rcases List.mem_append.mp h with h | h
      · obtain ⟨n, -, more, hr⟩ := ihi h
        exact ⟨name, by simp, _, hr.trans (FieldPath.segments_inside_child p name a _)⟩
      · obtain ⟨n, hn, more, hr⟩ := ihr h
        exact ⟨n, List.mem_cons_of_mem _ hn, more, hr⟩

/-- A name on the path of a reached attribute stands on the path at which it was sought or is the
name of a reached attribute. -/
theorem mem_names_of_mem_fields {attributes : List (String × Attribute)} {p : FieldPath}
    {above : List Attribute} {r : Reached} (h : r ∈ reachedIn attributes p above) :
    ∀ n ∈ r.path.fields, n ∈ p.fields ∨ ∃ r' ∈ reachedIn attributes p above, r'.name = n := by
  induction attributes using Resource.attributes_induction generalizing p above with
  | nil => simp at h
  | flat name a rest ha ih =>
      rw [reachedIn_cons_flat rest p above ha] at h ⊢
      intro n hn
      rcases List.mem_cons.mp h with rfl | h
      · rw [Reached.path, FieldPath.fields_child, List.mem_append, List.mem_singleton] at hn
        exact hn.imp_right fun hn => ⟨_, List.mem_cons_self, hn.symm⟩
      · exact (ih h n hn).imp_right fun ⟨r', hr', e⟩ => ⟨r', List.mem_cons_of_mem _ hr', e⟩
  | nested name a inner rest ha ihi ihr =>
      rw [reachedIn_cons_nested rest p above ha] at h ⊢
      intro n hn
      rcases List.mem_cons.mp h with rfl | h
      · rw [Reached.path, FieldPath.fields_child, List.mem_append, List.mem_singleton] at hn
        exact hn.imp_right fun hn => ⟨_, List.mem_cons_self, hn.symm⟩
      rcases List.mem_append.mp h with h | h
      · rcases ihi h n hn with hp | ⟨r', hr', e⟩
        · rw [FieldPath.fields_inside, FieldPath.fields_child, List.mem_append,
            List.mem_singleton] at hp
          exact hp.imp_right fun hn => ⟨_, List.mem_cons_self, hn.symm⟩
        · exact .inr ⟨r', List.mem_cons_of_mem _ (List.mem_append_left _ hr'), e⟩
      · exact (ihr h n hn).imp_right fun ⟨r', hr', e⟩ =>
          ⟨r', List.mem_cons_of_mem _ (List.mem_append_right _ hr'), e⟩

/-- The path of an attribute that a build reaches starts with a name, and every name on it is that
of an attribute that the build reaches. -/
theorem path_of_mem_reached {schema : Resource} {r : Reached} (h : r ∈ schema.reached) :
    (∃ name more, r.path.segments = .field name :: more) ∧
      ∀ n ∈ r.path.fields, ∃ r' ∈ schema.reached, r'.name = n := by
  obtain ⟨attributes⟩ := schema
  rw [Resource.reached, Resource.reachedFrom] at h ⊢
  obtain ⟨name, -, more, hs⟩ := segments_path_of_mem h
  refine ⟨⟨name, more, hs⟩, fun n hn => ?_⟩
  obtain hroot | hname := mem_names_of_mem_fields h n hn
  · cases hroot
  · exact hname

theorem segments_path_ne_of_not_mem {attributes : List (String × Attribute)} {p : FieldPath}
    {above : List Attribute} {r : Reached} (h : r ∈ reachedIn attributes p above) {name : String}
    (hname : name ∉ attributes.map Prod.fst) (more : List Segment) :
    r.path.segments ≠ p.segments ++ .field name :: more := by
  obtain ⟨n, hn, more', hs⟩ := segments_path_of_mem h
  intro e
  rw [hs] at e
  have same := List.append_cancel_left e
  rw [List.cons.injEq, Segment.field.injEq] at same
  exact hname (same.1 ▸ hn)

theorem segments_path_of_mem_inside {inner : List (String × Attribute)} {p : FieldPath}
    {name : String} {a : Attribute} {above : List Attribute} {r : Reached}
    (h : r ∈ reachedIn inner ((p.child name).inside a) above) :
    ∃ more, more ≠ [] ∧ r.path.segments = p.segments ++ .field name :: more := by
  obtain ⟨n, -, more, hs⟩ := segments_path_of_mem h
  exact ⟨_, by simp, hs.trans (FieldPath.segments_inside_child p name a (.field n :: more))⟩

/-- In an ordered resource no two reached attributes have the same path. -/
theorem nodup_paths_reachedIn {attributes : List (String × Attribute)} (p : FieldPath)
    (above : List Attribute) (h : (Resource.mk attributes).Ordered) :
    ((reachedIn attributes p above).map Reached.path).Nodup := by
  induction attributes using Resource.attributes_induction generalizing p above with
  | nil => simp
  | flat name a rest ha ih =>
      obtain ⟨-, -, hrest⟩ := Resource.ordered_cons.mp h
      rw [reachedIn_cons_flat rest p above ha, List.map_cons, List.nodup_cons]
      refine ⟨fun hm => ?_, ih p above hrest⟩
      obtain ⟨r, hr, e⟩ := List.mem_map.mp hm
      exact segments_path_ne_of_not_mem hr h.name_not_mem [] (congrArg FieldPath.segments e)
  | nested name a inner rest ha ihi ihr =>
      obtain ⟨-, ha', hrest⟩ := Resource.ordered_cons.mp h
      rw [reachedIn_cons_nested rest p above ha, List.map_cons, List.map_append, List.nodup_cons,
        List.nodup_append]
      -- The paths below the first attribute go through its name, and the later ones do not.
      refine ⟨fun hm => ?_, ihi _ _ (Attribute.ordered_nested? ha ha'), ihr p above hrest, ?_⟩
      · rcases List.mem_append.mp hm with hm | hm
        · obtain ⟨r, hr, e⟩ := List.mem_map.mp hm
          obtain ⟨more, hne, hs⟩ := segments_path_of_mem_inside hr
          rw [e] at hs
          have same := List.append_cancel_left hs
          rw [List.cons.injEq] at same
          exact hne same.2.symm
        · obtain ⟨r, hr, e⟩ := List.mem_map.mp hm
          exact segments_path_ne_of_not_mem hr h.name_not_mem [] (congrArg FieldPath.segments e)
      · rintro q hq _ hq' rfl
        obtain ⟨r, hr, rfl⟩ := List.mem_map.mp hq
        obtain ⟨r', hr', e⟩ := List.mem_map.mp hq'
        obtain ⟨more, -, hs⟩ := segments_path_of_mem_inside hr
        exact segments_path_ne_of_not_mem hr' h.name_not_mem more (e ▸ hs)

end ResourceTypes
