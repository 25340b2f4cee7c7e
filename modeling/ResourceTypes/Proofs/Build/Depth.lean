import ResourceTypes.Proofs.Build.Faults
import ResourceTypes.Proofs.Schema.Budget

/-! # The depth of a build

The `height` of a schema is the number of elements on its longest way down, through element
schemas and nested resources.  A build counts the same elements on its way, so that it goes no
deeper than the height (`Reached.Fault.depthLimit_le`).

A document writes each element into containers of its own: an element schema takes two, a nested
resource four.  The reader opens only as many containers as its budget allows, which bounds the
height of every resource that it gives by half of the budget (`budgeted_height`).  Hence
`not_depthLimit_of_bytes`: no resource of a document reaches the depth at which a build gives
up. -/

namespace ResourceTypes

open Json

/-! ### Heights -/

mutual

/-- The elements on the longest way down from the attribute. -/
def Attribute.height : Attribute → Nat
  | .mk _ element => element.height

/-- The elements on the longest way down, the element itself among them. -/
def Element.height : Element → Nat
  | .unset => 0
  | .primitive _ => 0
  | .schema inner => inner.height + 1
  | .resource inner => inner.height + 1

/-- The elements on the longest way down from one of the attributes of the resource. -/
def Resource.height : Resource → Nat
  | .mk attributes => attributesHeight attributes

/-- The elements on the longest way down from one of the attributes. -/
def attributesHeight : List (String × Attribute) → Nat
  | [] => 0
  | (_, a) :: rest => max a.height (attributesHeight rest)

end

theorem attributesHeight_le {attributes : List (String × Attribute)} {n : Nat} :
    attributesHeight attributes ≤ n ↔ ∀ e ∈ attributes, e.2.height ≤ n := by
  induction attributes with
  | nil => simp [attributesHeight]
  | cons e rest ih =>
      rw [attributesHeight, Nat.max_le, ih, List.forall_mem_cons]

namespace Attribute

theorem depth_le_of_mem_nodes {a : Attribute} {p : FieldPath} {v : FieldPath × Attribute}
    (h : v ∈ a.nodes p) : v.1.depth ≤ p.depth + a.height := by
  induction a using chain_induction generalizing p with
  | scalar traits element hk =>
      rw [nodes_scalar element p hk, List.mem_singleton] at h
      rw [h]
      exact Nat.le_add_right _ _
  | unset traits hk | primitive traits kind hk | resource traits inner hk =>
      rw [nodes, List.mem_singleton] at h
      rw [h]
      exact Nat.le_add_right _ _
  | schema traits inner hk ih =>
      rw [nodes_schema inner p hk] at h
      obtain rfl | h := List.mem_cons.mp h
      · exact Nat.le_add_right _ _
      · have hv := ih h
        rw [FieldPath.depth_wildcard] at hv
        rw [height, Element.height]
        omega

theorem edges_add_height_le {a : Attribute} {r : Resource} (h : a.nested? = some r) :
    a.edges + r.height ≤ a.height := by
  induction a using chain_induction with
  | scalar traits element hk => simp [nested?_scalar element hk] at h
  | unset traits hk => simp [nested?] at h
  | primitive traits kind hk => simp [nested?] at h
  | resource traits inner hk =>
      rw [nested?_resource inner hk] at h
      cases h
      rw [edges, height, Element.height]
      omega
  | schema traits inner hk ih =>
      rw [nested?_schema inner hk] at h
      have hi := ih h
      rw [edges, height, Element.height]
      omega

end Attribute

/-- A reached attribute and all that is below it lie within the height of the attributes from
which it is reached. -/
theorem depth_add_height_le_of_mem {attributes : List (String × Attribute)} {p : FieldPath}
    {above : List Attribute} {r : Reached} (h : r ∈ reachedIn attributes p above) :
    r.path.depth + r.attr.height ≤ p.depth + attributesHeight attributes := by
  induction attributes using Resource.attributes_induction generalizing p above with
  | nil => simp at h
  | flat name a rest ha ih =>
      rw [reachedIn_cons_flat rest p above ha] at h
      rw [attributesHeight]
      obtain rfl | h := List.mem_cons.mp h
      · rw [Reached.path, FieldPath.depth_child]
        exact Nat.add_le_add_left (Nat.le_max_left _ _) _
      · have hr := ih h
        omega
  | nested name a inner rest ha ihi ihr =>
      rw [reachedIn_cons_nested rest p above ha] at h
      rw [attributesHeight]
      obtain rfl | h := List.mem_cons.mp h
      · rw [Reached.path, FieldPath.depth_child]
        exact Nat.add_le_add_left (Nat.le_max_left _ _) _
      obtain h | h := List.mem_append.mp h
      · have hr := ihi h
        have hinner := Attribute.edges_add_height_le ha
        rw [Resource.height] at hinner
        rw [FieldPath.depth_inside, FieldPath.depth_child] at hr
        omega
      · have hr := ihr h
        omega

/-- Where the depth of a reached attribute is at fault, the schema is that high. -/
theorem Reached.Fault.depthLimit_le {schema : Resource} {r : Reached} {kind : String} {limit : Nat}
    (mem : r ∈ schema.reached) (fault : r.Fault kind (.depthLimit limit)) :
    maxDepth ≤ schema.height := by
  obtain ⟨attributes⟩ := schema
  rw [Resource.reached, Resource.reachedFrom] at mem
  rw [Resource.height]
  have within := depth_add_height_le_of_mem mem
  rw [FieldPath.depth_root] at within
  cases fault with
  | node hv hf =>
      cases hf with
      | depth deep =>
          have hnode := Attribute.depth_le_of_mem_nodes hv
          exact Nat.le_trans deep (Nat.le_trans hnode (by omega))
  | nesting leads deep =>
      have hinner := Attribute.edges_add_height_le leads
      rw [FieldPath.depth_inside] at deep
      omega

theorem not_depthLimit_of_height {schema : Resource} {config : Config} {symbols : SymbolTable}
    {e : BuildError} (low : schema.height < maxDepth)
    (fails : (build schema config symbols).outcome = .error e) (limit : Nat) :
    e.rootCause ≠ .depthLimit limit := by
  intro hroot
  have accounted := accounted_of_build fails
  rw [hroot] at accounted
  obtain ⟨r, hr, fault⟩ | ⟨name, hname⟩ := accounted
  · exact absurd (fault.depthLimit_le hr) (Nat.not_le_of_lt low)
  · cases hname

/-! ### What the readers give -/

/-- An attribute takes one container and each element below it two more, one for itself and one for
what it holds. -/
theorem budgeted_height :
    Schema.Budgeted (fun budget a => 2 * a.height + 1 ≤ budget)
      (fun budget e => 2 * e.height ≤ budget) (fun budget r => 2 * r.height + 1 ≤ budget)
      (fun budget l => 2 * attributesHeight l ≤ budget) where
  around traits h := by
    rw [Attribute.height]
    omega
  unset budget := by simp [Element.height]
  primitive budget k := by simp [Element.height]
  schema h := by
    rw [Element.height]
    omega
  resource h := by
    rw [Element.height]
    omega
  listed h := by
    rw [Resource.height]
    omega
  empty budget := by simp [attributesHeight]
  insert := by
    intro budget l a name hl ha
    have height : attributesHeight (Resource.insertAttribute name a l) ≤ (budget + 1) / 2 := by
      refine attributesHeight_le.mpr fun e he => ?_
      rw [Resource.insertAttribute_eq] at he
      obtain rfl | he := OrderedMap.mem_insertEntry he
      · show a.height ≤ (budget + 1) / 2
        omega
      · have := attributesHeight_le.mp (Nat.le_refl _) e he
        omega
    omega

namespace Document

theorem height_le_of_parseWithin {budget : Nat} {s : List Char} {d : Document} {name : String}
    {r : Resource} (read : parseWithin budget s = .ok d) (found : d.resource? name = some r) :
    2 * r.height + 3 ≤ budget := by
  obtain ⟨inner, rfl, height⟩ :=
    (budgeted_height.documentWithin _ budget).readAll read (name, r) (OrderedMap.mem_of_get? found)
  dsimp only at height
  omega

theorem parse_of_ofBytes {bytes : List UInt8} {d : Document} (read : ofBytes bytes = .ok d) :
    ∃ s, parse s = .ok d := by
  unfold ofBytes at read
  split at read
  next => cases read
  next =>
    split at read
    next => cases read
    next s _ =>
      split at read
      next d' hparse =>
        cases read
        exact ⟨s, hparse⟩
      next => cases read

end Document

/-! ### Main statement -/

/-- Whatever bytes a document is read from, no resource of it fails to build for its depth. -/
theorem not_depthLimit_of_bytes {bytes : List UInt8} {d : Document} {name : String}
    {schema : Resource} (read : Document.ofBytes bytes = .ok d)
    (found : d.resource? name = some schema) (config : Config) (symbols : SymbolTable)
    (e : BuildError) (fails : (build schema config symbols).outcome = .error e) (limit : Nat) :
    e.rootCause ≠ .depthLimit limit := by
  obtain ⟨s, hparse⟩ := Document.parse_of_ofBytes read
  have height := Document.height_le_of_parseWithin hparse found
  have low : schema.height < maxDepth := by
    rw [Schema.maxNesting] at height
    rw [maxDepth]
    omega
  exact not_depthLimit_of_height low fails limit

/-- A document whose only resource has an attribute of that many lists in one another, around an
element of an invalid kind. -/
def listsDocument (lists : Nat) : List UInt8 :=
  Text.encode <|
    "\x7b\"resources\":\x7b\"r\":\x7b\"attributes\":\x7b\"a\":".toList ++
      (List.replicate lists "\x7b\"type\":\"list\",\"elem\":\x7b\"schema\":".toList).flatten ++
      "\x7b\"type\":\"invalid\"\x7d".toList ++ List.replicate (2 * lists + 4) '\x7d'

/-- The deepest document of lists that is read: its build comes down to the innermost kind. -/
theorem not_depthLimit_of_bytes_lists :
    ∃ d schema e, Document.ofBytes (listsDocument 61) = .ok d ∧ d.resource? "r" = some schema ∧
      (build schema { name := "r", kind := "K" } .empty).outcome = .error e ∧
      e.rootCause = .invalidKind .invalid ∧ e.rootCause ≠ .depthLimit maxDepth := by
  have run : ((Document.ofBytes (listsDocument 61)).toOption.bind fun d =>
      (d.resource? "r").bind fun schema =>
        (build schema { name := "r", kind := "K" } .empty).error?.map BuildError.rootCause) =
          some (.invalidKind .invalid) := by decide +kernel
  obtain ⟨d, hd, run⟩ := Option.bind_eq_some_iff.mp run
  obtain ⟨schema, found, run⟩ := Option.bind_eq_some_iff.mp run
  obtain ⟨e, fails, root⟩ := BuildResult.exists_error run
  have read : Document.ofBytes (listsDocument 61) = .ok d := by
    cases h : Document.ofBytes (listsDocument 61) with
    | ok d' => simpa [h, Except.toOption] using hd
    | error e => simp [h, Except.toOption] at hd
  exact ⟨d, schema, e, read, found, fails, root,
    not_depthLimit_of_bytes read found _ _ e fails maxDepth⟩

end ResourceTypes
