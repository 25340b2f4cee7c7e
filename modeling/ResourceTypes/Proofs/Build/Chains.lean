import ResourceTypes.Proofs.Build.Secrets
import ResourceTypes.Proofs.Name.Forms

/-! # Chains of fields

A chain of fields leads through a serialised object: each field but the last is of a generated
type, or of a collection of it, that has the next (`FieldChain`).  Its JSON names are the tags of
the fields without the option to leave them out.

The type for what can be set mentions the one of a nested resource when neither the attribute that
leads to it nor the innermost collection on the way is only observed
(`Attribute.linksParameters`).  Where all attributes above a secret that can be set are of this
kind, a chain leads from the level at which a walk starts to the reference that takes the place of
the secret (`Walk.chain`). -/

namespace ResourceTypes

open Build

/-! ### JSON names -/

/-- The name of a field in serialised objects. -/
def Field.jsonName (f : Field) : String := Site.withoutOmitEmpty f.tags.json

namespace Site

theorem withoutOmitEmpty_append (tag : String) : withoutOmitEmpty (tag ++ omitEmpty) = tag := by
  have hbefore : Text.before? omitEmpty.toList (tag ++ omitEmpty).toList = some tag.toList := by
    rw [Text.before?, String.toList_append, List.reverse_append, Text.after?_append]
    simp
  rw [withoutOmitEmpty, hbefore]
  exact String.ofList_toList

theorem withoutOmitEmpty_of_alphanum {tag : String} (h : ∀ c ∈ tag.toList, c.isAlphanum = true) :
    withoutOmitEmpty tag = tag := by
  rw [withoutOmitEmpty]
  cases hb : Text.before? omitEmpty.toList tag.toList with
  | none => rfl
  | some kept =>
      rw [Text.before?] at hb
      obtain ⟨rest, hr, -⟩ := Option.map_eq_some_iff.mp hb
      have hcomma : ',' ∈ tag.toList := by
        rw [← List.mem_reverse, Text.eq_append_of_after? hr]
        exact List.mem_append_left _ (by decide)
      exact absurd (h ',' hcomma) (by decide)

theorem jsonName_tagged {s : Site} {f : Field} {tag : String} (hs : s.comment.jsonTag = none)
    (halpha : ∀ c ∈ tag.toList, c.isAlphanum = true)
    (hf : f.tags.json = tag ∨ f.tags.json = tag ++ omitEmpty) :
    (s.tagged false f).jsonName = tag := by
  have hkept : withoutOmitEmpty f.tags.json = tag := by
    rcases hf with hf | hf <;> rw [hf]
    · exact withoutOmitEmpty_of_alphanum halpha
    · exact withoutOmitEmpty_append tag
  have htagged : (s.tagged false f).tags.json =
      if s.required then withoutOmitEmpty f.tags.json else f.tags.json := by
    simp [tagged, hs]
  rw [Field.jsonName, htagged]
  split
  · rw [hkept, withoutOmitEmpty_of_alphanum halpha]
  · exact hkept

end Site

/-! ### Chains -/

/-- A chain of fields from some fields on, through generated types. -/
inductive FieldChain (types : List TypeDecl) : List Field → List Field → Prop
  | last {fields : List Field} {f : Field} (mem : f ∈ fields) : FieldChain types fields [f]
  | into {fields chain : List Field} {f : Field} {t : TypeDecl} (mem : f ∈ fields)
      (emitted : t ∈ types) (mentions : f.type.named? = some t.name)
      (next : FieldChain types t.fields chain) : FieldChain types fields (f :: chain)

theorem FieldChain.eq_singleton {types : List TypeDecl} {f : Field} {chain : List Field}
    (h : FieldChain types [f] chain) (hf : f.type.named? = none) : chain = [f] := by
  cases h with
  | last mem => rw [List.mem_singleton.mp mem]
  | into mem _ mentions _ =>
      rw [List.mem_singleton.mp mem, hf] at mentions
      cases mentions

theorem FieldChain.ne_nil {types : List TypeDecl} {fields chain : List Field}
    (h : FieldChain types fields chain) : fields ≠ [] := by
  cases h with
  | last mem | into mem => exact List.ne_nil_of_mem mem

/-! ### Links -/

/-- The type for what can be set mentions that of the nested resource. -/
def Attribute.linksParameters (a : Attribute) : Bool :=
  !a.isObservation && !a.innermost.isObservation

/-- An attribute of a build that succeeds, with a snake name and no override of its JSON tag. -/
structure Reached.Regular (kind : String) (r : Reached) : Prop where
  sound : ∀ e, ¬ r.Fault kind e
  snake : FieldName.isSnakeName r.name = true
  untagged : ∀ c, Comment.parse r.attr.traits.description = .ok c → c.jsonTag = none

theorem Reached.linkField_of_placed {r : Reached} {n : TypeNames} {kind : String} {c : Config}
    {l : Location} {comment : Comment} {level level' : Level} {s t : BuildState} {inner : Resource}
    (regular : r.Regular kind) (parsed : Comment.parse r.attr.traits.description = .ok comment)
    (leads : r.attr.nested? = some inner) (links : r.attr.linksParameters = true)
    (h : Returns (placeVariants (.ofAttribute c (.ofSnake r.name) l r.attr.traits comment)
      (r.attr.variants (some n)) level) s level' t) :
    ∃ f ∈ level'.parameterFields, f.type.named? = some n.parameters ∧
      f.jsonName = (FieldName.ofSnake r.name).tag := by
  rw [Attribute.linksParameters, Bool.and_eq_true, Bool.not_eq_true', Bool.not_eq_true'] at links
  have hs : r.attr.traits.sensitive = false := by
    by_contra hs
    have hk := r.kind_of_sensitive regular.sound (eq_true_of_ne_false hs) links.1
    rw [Attribute.nested?_of_kind (by rw [hk]; rfl)] at leads
    cases leads
  obtain ⟨rfl, -⟩ := returns_placeVariants h
  let site : Site := .ofAttribute c (.ofSnake r.name) l r.attr.traits comment
  refine ⟨site.tagged false (site.plain (r.attr.wrap (.named n.parameters))), ?_, ?_, ?_⟩
  · rw [Attribute.variants_of_nested n leads, links.2, List.flatMap_cons]
    refine List.mem_append_right _ (List.mem_append_right _ ?_)
    have hsite : site.sensitive = false := hs
    simp [Site.parameterFields, Site.base, links.1, hsite, site]
  · simp [Site.tagged, Site.plain, ValueType.named?]
  · exact Site.jsonName_tagged (regular.untagged _ parsed)
      (FieldName.alphanum_ofSnake regular.snake).2.2 (.inr rfl)

/-! ### Secrets at the end of a chain -/

/-- The field is the reference that takes the place of the secret. -/
structure Reached.SecretField (r : Reached) (f : Field) : Prop where
  name : f.name = (FieldName.ofSnake r.name).camel ++ secretRefSuffix
  type : f.type.isSecretRef = true

theorem alphanum_secretRefSuffix : ∀ c ∈ secretRefSuffix.toList, c.isAlphanum = true :=
  List.all_eq_true.mp (by decide)

theorem FieldName.alphanum_camel_secretRef {name : String} (h : isSnakeName name = true) :
    ∀ c ∈ ((ofSnake name).camel ++ secretRefSuffix).toList, c.isAlphanum = true := by
  rw [String.toList_append, List.forall_mem_append]
  exact ⟨(alphanum_ofSnake h).1, alphanum_secretRefSuffix⟩

theorem Site.jsonName_secretRef {s : Site} {name : String} (hname : s.name = .ofSnake name)
    (snake : FieldName.isSnakeName name = true) (hs : s.comment.jsonTag = none) :
    s.secretRef.jsonName = (FieldName.ofCamel s.secretRef.name).tag := by
  have hcamel := FieldName.alphanum_camel_secretRef snake
  rw [← hname] at hcamel
  refine jsonName_tagged hs (FieldName.alphanum_tag_ofCamel hcamel) ?_
  dsimp only
  cases s.optional
  · exact .inl rfl
  · exact .inr rfl

theorem Reached.secretField_of_placed {r : Reached} {names : Option TypeNames} {kind : String}
    {c : Config} {l : Location} {comment : Comment} {level level' : Level} {s t : BuildState}
    (regular : r.Regular kind) (parsed : Comment.parse r.attr.traits.description = .ok comment)
    (hs : r.attr.traits.sensitive = true) (ho : r.attr.isObservation = false)
    (h : Returns (placeVariants (.ofAttribute c (.ofSnake r.name) l r.attr.traits comment)
      (r.attr.variants names) level) s level' t) :
    ∃ f ∈ level'.parameterFields, r.SecretField f ∧
      f.jsonName = (FieldName.ofCamel f.name).tag := by
  obtain ⟨rfl, -⟩ := returns_placeVariants h
  rw [Attribute.variants_of_string names (r.kind_of_sensitive regular.sound hs ho),
    List.flatMap_singleton, Site.parameterFields_secret hs ho rfl]
  refine ⟨_, List.mem_append_right _ List.mem_cons_self, ⟨rfl, Site.isSecretRef_secretRef _⟩, ?_⟩
  exact Site.jsonName_secretRef rfl regular.snake (regular.untagged _ parsed)

/-! ### The chain of a walk -/

/-- The tags of the names on a path. -/
def FieldPath.tags (p : FieldPath) : List String := p.fields.map fun n => (FieldName.ofSnake n).tag

namespace Walk

variable {attributes : List (String × Attribute)} {l : Location} {level level' : Level}
  {s t : BuildState} {levels : Forest BuiltLevel}

theorem parameterFields_subset (h : Walk attributes l level s levels level' t) :
    level.parameterFields ⊆ level'.parameterFields := by
  induction h with
  | nil => exact List.Subset.refl _
  | flat _ _ _ placed _ ih =>
      obtain ⟨rfl, -⟩ := returns_placeVariants placed
      exact List.Subset.trans (List.subset_append_left _ _) ih
  | nested _ _ _ _ _ _ placed _ _ iho =>
      obtain ⟨rfl, -⟩ := returns_placeVariants placed
      exact List.Subset.trans (List.subset_append_left _ _) iho

/-- When all attributes above a secret that can be set link the types for what can be set, a chain
leads from the level of the walk to the reference in its place.  The JSON names on the way are the
tags of the attributes. -/
theorem chain {kind : String} {p : FieldPath} {above : List Attribute} {types : List TypeDecl}
    {r : Reached} (h : Walk attributes l level s levels level' t)
    (regular : ∀ r ∈ reachedIn attributes p above, r.Regular kind)
    (emitted : ∀ b ∈ levels.preorder, b.typeOf false ∈ types)
    (hr : r ∈ reachedIn attributes p above) (hs : r.attr.traits.sensitive = true)
    (ho : r.attr.isObservation = false) (links : ∀ a ∈ r.above, a.linksParameters = true) :
    ∃ outer f, FieldChain types level'.parameterFields (outer ++ [f]) ∧ r.SecretField f ∧
      f.jsonName = (FieldName.ofCamel f.name).tag ∧
      p.tags ++ outer.map Field.jsonName = r.level.tags := by
  induction h generalizing p above with
  | nil => simp at hr
  | flat leads parsed registered placed others ih =>
      rw [reachedIn_cons_flat _ p above leads] at regular hr
      obtain ⟨hfirst, hrest⟩ := List.forall_mem_cons.mp regular
      rcases List.mem_cons.mp hr with rfl | hr
      · obtain ⟨f, hf, hsecret, hjson⟩ := Reached.secretField_of_placed hfirst parsed hs ho placed
        exact ⟨[], f, .last (others.parameterFields_subset hf), hsecret, hjson, by simp⟩
      · exact ih hrest emitted hr
  | @nested name a inner _ _ _ filled _ _ _ _ _ _ _ _ _ _ _ _ _ _ leads parsed registered opens
      visits closes placed others ihb iho =>
      rw [reachedIn_cons_nested _ p above leads] at regular hr
      obtain ⟨hfirst, hothers⟩ := List.forall_mem_cons.mp regular
      obtain ⟨hbelow, hbeside⟩ := List.forall_mem_append.mp hothers
      rw [Forest.preorder] at emitted
      obtain ⟨efirst, eothers⟩ := List.forall_mem_cons.mp emitted
      obtain ⟨ebelow, ebeside⟩ := List.forall_mem_append.mp eothers
      rcases List.mem_cons.mp hr with rfl | hr
      · obtain ⟨f, hf, hsecret, hjson⟩ := Reached.secretField_of_placed hfirst parsed hs ho placed
        exact ⟨[], f, .last (others.parameterFields_subset hf), hsecret, hjson, by simp⟩
      rcases List.mem_append.mp hr with hr | hr
      · -- The field of the attribute leads to the type of the nested resource.
        have habove : a ∈ r.above := above_subset_of_mem hr (by simp)
        obtain ⟨f, hf, hmentions, hjson⟩ :=
          Reached.linkField_of_placed hfirst parsed leads (links a habove) placed
        obtain ⟨outer, secret, hchain, hsecret, hsecretJson, htags⟩ := ihb hbelow ebelow hr
        refine ⟨f :: outer, secret,
          .into (others.parameterFields_subset hf) efirst hmentions hchain, hsecret, hsecretJson,
          ?_⟩
        rw [← htags, List.map_cons, hjson]
        simp [FieldPath.tags]
      · exact iho hbeside ebeside hr

end Walk

/-- When all attributes above a secret that can be set link the types for what can be set, a chain
leads from the root type for what can be set to the reference in its place. -/
theorem Built.chain {schema : Resource} {config : Config} {symbols : SymbolTable} {g : Generated}
    {levels : Forest BuiltLevel} {r : Reached} (h : Built schema config symbols g levels)
    (regular : ∀ r ∈ schema.reached, r.Regular config.kind) (hr : r ∈ schema.reached)
    (hs : r.attr.traits.sensitive = true) (ho : r.attr.isObservation = false)
    (links : ∀ a ∈ r.above, a.linksParameters = true) :
    ∃ root outer f, g.forProviderType? = some root ∧
      FieldChain g.types root.fields (outer ++ [f]) ∧ r.SecretField f ∧
      f.jsonName = (FieldName.ofCamel f.name).tag ∧ outer.map Field.jsonName = r.level.tags := by
  obtain ⟨root, hroot, hfor, -⟩ := h.roots
  have htypes := h.types
  obtain @⟨_, _, _, _, _, _, below, -, visits, -, -⟩ := h
  obtain ⟨attributes⟩ := schema
  rw [Resource.reached, Resource.reachedFrom] at regular hr
  rw [Forest.roots, Forest.roots, List.cons.injEq] at hroot
  have emitted : ∀ b ∈ below.preorder, b.typeOf false ∈ g.types := fun b hb => by
    rw [htypes, Forest.postorder, List.flatMap_append]
    refine List.mem_append_left _ (List.mem_flatMap_of_mem (Forest.mem_postorder.mpr hb) ?_)
    exact List.mem_cons_self
  obtain ⟨outer, f, hchain, hsecret, hjson, htags⟩ := visits.chain regular emitted hr hs ho links
  refine ⟨root.typeOf false, outer, f, hfor, ?_, hsecret, hjson, htags⟩
  rw [← hroot.1]
  exact hchain

end ResourceTypes
