import ResourceTypes.Proofs.Build.TypeNames

/-! # Mentions of generated types

Types are linked by name: a field mentions a generated type when its type, at whatever depth, is
that name.  Companions and secrets mention none, so that an attribute mentions what its variants
do, and nothing when it is sensitive (`Level.mentions_extend`).  The variants in turn mention
none but the two types of the resource to which the attribute leads, each once at most
(`Attribute.mentioned_of_nested`).

Hence the mentions of a level are those of the levels right below it, in order
(`Walk.mentions_fieldsOf`, `Walk.linked`). -/

namespace ResourceTypes

open Build

/-! ### The two worlds of a level -/

/-- The name of the type for what is observed, or for what can be set. -/
def TypeNames.ofWorld (n : TypeNames) (observed : Bool) : String :=
  if observed then n.observation else n.parameters

theorem TypeNames.mem_both {n : TypeNames} {x : String} :
    x ∈ n.both ↔ ∃ observed, x = n.ofWorld observed := by
  simp [TypeNames.both, TypeNames.ofWorld, or_comm]

/-- The fields of the type for what is observed, or for what can be set. -/
def Level.fieldsOf (l : Level) (observed : Bool) : List Field :=
  if observed then l.observationFields else l.parameterFields

/-- The type for what is observed, or for what can be set. -/
def BuiltLevel.typeOf (b : BuiltLevel) (observed : Bool) : TypeDecl :=
  ⟨b.names.ofWorld observed, b.level.fieldsOf observed⟩

theorem BuiltLevel.types_eq (b : BuiltLevel) : b.types = [b.typeOf false, b.typeOf true] := rfl

/-- The type of index `i` is that of level `i / 2` for the world that is the rest. -/
theorem getElem?_types (levels : List BuiltLevel) (i : Nat) :
    (levels.flatMap BuiltLevel.types)[i]? = levels[i / 2]?.map fun b => b.typeOf (i % 2 == 1) := by
  induction levels generalizing i with
  | nil => rfl
  | cons b rest ih =>
      rw [List.flatMap_cons, BuiltLevel.types_eq]
      match i with
      | 0 => rfl
      | 1 => rfl
      | i + 2 =>
          have hd : (i + 2) / 2 = i / 2 + 1 := by omega
          have hm : (i + 2) % 2 = i % 2 := by omega
          rw [hd, hm]
          exact ih i

theorem getElem?_types_of_level {levels : List BuiltLevel} {k : Nat} {b : BuiltLevel}
    (h : levels[k]? = some b) (observed : Bool) :
    (levels.flatMap BuiltLevel.types)[2 * k + observed.toNat]? = some (b.typeOf observed) := by
  have hlt := observed.toNat_lt
  have hd : (2 * k + observed.toNat) / 2 = k := by omega
  have hm : (2 * k + observed.toNat) % 2 = observed.toNat := by omega
  rw [getElem?_types, hd, hm, h]
  cases observed <;> rfl

/-! ### Mentions of fields -/

/-- The generated types that fields mention, once for each field that does. -/
def mentions (fields : List Field) : List String := fields.filterMap fun f => f.type.named?

/-- The generated types that the variants for one world mention. -/
def mentionsOf (observed : Bool) (variants : List Variant) : List String :=
  (variants.filter fun v => v.isObservation == observed).filterMap fun v => v.type.named?

@[simp] theorem mentions_nil : mentions [] = [] := rfl

theorem mentions_cons (f : Field) (rest : List Field) :
    mentions (f :: rest) = f.type.named?.toList ++ mentions rest := by
  rw [mentions, List.filterMap_cons]
  cases f.type.named? <;> rfl

@[simp] theorem mentions_append (fields fields' : List Field) :
    mentions (fields ++ fields') = mentions fields ++ mentions fields' :=
  List.filterMap_append

theorem mentions_flatMap {α : Type} (l : List α) (fields : α → List Field) :
    mentions (l.flatMap fields) = l.flatMap fun a => mentions (fields a) := by
  induction l with
  | nil => rfl
  | cons a rest ih => rw [List.flatMap_cons, mentions_append, ih, List.flatMap_cons]

@[simp] theorem mentionsOf_nil (observed : Bool) : mentionsOf observed [] = [] := rfl

theorem mentionsOf_cons (observed : Bool) (v : Variant) (rest : List Variant) :
    mentionsOf observed (v :: rest) =
      (if v.isObservation = observed then v.type.named?.toList else []) ++
        mentionsOf observed rest := by
  by_cases ho : v.isObservation = observed
  · rw [if_pos ho, mentionsOf, List.filter_cons_of_pos (by simpa using ho), List.filterMap_cons]
    cases v.type.named? <;> rfl
  · rw [if_neg ho, mentionsOf, List.filter_cons_of_neg (by simpa using ho)]
    rfl

theorem mentions_companions (f : Field) (r : Reference) : mentions (companions f r) = [] := by
  unfold companions
  split <;> rfl

theorem named?_secretField {name : String} {type : ValueType} {optional : Bool}
    {secret : SecretField} (h : secretField? name type optional = some secret) :
    secret.type.named? = none := by
  simp only [secretField?] at h
  split at h
  · split at h <;> cases h <;> rfl
  · cases h

namespace Site

theorem mentions_parameterFields (s : Site) (v : Variant) :
    mentions (s.parameterFields v) =
      if s.sensitive || v.isObservation then [] else v.type.named?.toList := by
  have settable (f : Field) :
      mentions (f :: s.reference.toList.flatMap (companions f)) = f.type.named?.toList := by
    rw [mentions_cons]
    cases s.reference <;> simp [mentions_companions]
  unfold parameterFields
  cases ho : v.isObservation with
  | true => simp
  | false =>
      cases hs : s.sensitive with
      | false => simp [base, hs, settable, tagged, plain]
      | true =>
          cases hb : secretField? s.name.camel v.type s.optional with
          | none => simp [base, hs, hb]
          | some secret => simp [base, hs, hb, settable, tagged, named?_secretField hb]

theorem mentions_observationFields (s : Site) (v : Variant) :
    mentions (s.observationFields v) =
      if s.sensitive || !v.isObservation then [] else v.type.named?.toList := by
  unfold observationFields
  cases v.isObservation <;> cases s.sensitive <;> simp [mentions_cons, tagged, plain]

end Site

/-- Placing the variants of an attribute adds their mentions, unless the attribute is sensitive. -/
theorem Level.mentions_extend (l : Level) (s : Site) (variants : List Variant) (observed : Bool) :
    mentions ((l.extend (variants.flatMap s.parameterFields)
        (variants.flatMap s.observationFields)).fieldsOf observed) =
      mentions (l.fieldsOf observed) ++
        if s.sensitive then [] else mentionsOf observed variants := by
  induction variants generalizing l with
  | nil => simp
  | cons v rest ih =>
      have hsplit : l.extend ((v :: rest).flatMap s.parameterFields)
          ((v :: rest).flatMap s.observationFields) =
          (l.extend (s.parameterFields v) (s.observationFields v)).extend
            (rest.flatMap s.parameterFields) (rest.flatMap s.observationFields) := by
        simp
      have hone : mentions ((l.extend (s.parameterFields v) (s.observationFields v)).fieldsOf
          observed) = mentions (l.fieldsOf observed) ++
            if s.sensitive then [] else mentionsOf observed [v] := by
        cases observed <;> cases hs : s.sensitive <;> cases ho : v.isObservation <;>
          simp [fieldsOf, extend, s.mentions_parameterFields, s.mentions_observationFields,
            mentionsOf_cons, hs, ho]
      rw [hsplit, ih, hone, List.append_assoc, mentionsOf_cons observed v rest]
      cases s.sensitive <;> simp [mentionsOf_cons]

/-! ### Mentions of an attribute -/

namespace Attribute

/-- The types that the fields of the attribute mention for one world, given the names of the
types of its resource. -/
def mentioned (a : Attribute) (n : TypeNames) (observed : Bool) : List String :=
  if a.traits.sensitive then [] else mentionsOf observed (a.variants (some n))

theorem named?_variantsOver (traits : Traits) {elements : List Variant}
    (h : ∀ v ∈ elements, v.type.named? = none) :
    ∀ v ∈ variantsOver traits elements, v.type.named? = none := by
  intro v hv
  unfold variantsOver at hv
  split at hv
  · rw [List.mem_singleton.mp hv]
    rfl
  · obtain ⟨w, hw, rfl⟩ := List.mem_map.mp hv
    exact (named?_collectionOf traits.kind w.type).trans (h w hw)

theorem named?_variants_none : ∀ (a : Attribute), ∀ v ∈ a.variants none, v.type.named? = none
  | .mk traits .unset => named?_variantsOver traits (by simp [ValueType.named?])
  | .mk traits (.primitive kind) => named?_variantsOver traits (by simp [ValueType.named?])
  | .mk traits (.resource _) => named?_variantsOver traits (by simp)
  | .mk traits (.schema inner) => by
      refine named?_variantsOver traits fun v hv => ?_
      obtain ⟨w, hw, rfl⟩ := List.mem_map.mp hv
      exact named?_variants_none inner w hw

theorem mentionsOf_variants_none (a : Attribute) (observed : Bool) :
    mentionsOf observed (a.variants none) = [] := by
  rw [mentionsOf, List.filterMap_eq_nil_iff]
  exact fun v hv => a.named?_variants_none v (List.mem_of_mem_filter hv)

/-- The type for what is observed is mentioned where the flag of its variant says, and the type
for what can be set, unless the innermost collection is only observed, where the flag of the
attribute says. -/
theorem mentioned_of_nested {a : Attribute} {r : Resource} (n : TypeNames) (observed : Bool)
    (h : a.nested? = some r) :
    a.mentioned n observed =
      if a.traits.sensitive then [] else
        (if (a.holdsDirectly || a.isObservation) = observed then [n.observation] else []) ++
          if !a.innermost.isObservation ∧ a.isObservation = observed then [n.parameters]
          else [] := by
  rw [mentioned, variants_of_nested n h]
  cases a.innermost.isObservation <;>
    simp [mentionsOf_cons, ValueType.named?]

/-- An attribute mentions each of the two names once at most, and no other. -/
theorem mentioned_nodup {a : Attribute} {r : Resource} {n : TypeNames}
    (h : a.nested? = some r) (hn : n.parameters ≠ n.observation) :
    (a.mentioned n false ++ a.mentioned n true).Nodup ∧
      a.mentioned n false ++ a.mentioned n true ⊆ n.both := by
  rw [mentioned_of_nested n false h, mentioned_of_nested n true h]
  cases a.traits.sensitive <;> cases a.holdsDirectly <;> cases a.isObservation <;>
    cases a.innermost.isObservation <;> simp [TypeNames.both, hn, hn.symm]

end Attribute

namespace BuiltLevel

/-- The types of a level that the level above mentions for one world. -/
def mentioned (b : BuiltLevel) (observed : Bool) : List String :=
  match b.holder with
  | none => []
  | some (_, a) => a.mentioned b.names observed

end BuiltLevel

/-! ### Mentions of a level -/

/-- The fields of a level mention what the levels right below it are mentioned for, in order. -/
def Linked (p : BuiltLevel) (children : List BuiltLevel) : Prop :=
  ∀ observed, mentions (p.level.fieldsOf observed) = children.flatMap fun c => c.mentioned observed

namespace Walk

variable {attributes : List (String × Attribute)} {l : Location} {level level' : Level}
  {s t : BuildState} {levels : Forest BuiltLevel}

/-- Visiting attributes adds the mentions of the levels that it builds at once. -/
theorem mentions_fieldsOf (h : Walk attributes l level s levels level' t) (observed : Bool) :
    mentions (level'.fieldsOf observed) =
      mentions (level.fieldsOf observed) ++ levels.roots.flatMap fun c => c.mentioned observed := by
  induction h with
  | nil => simp [Forest.roots]
  | flat _ _ _ placed _ ih =>
      obtain ⟨rfl, -⟩ := returns_placeVariants placed
      rw [ih, Level.mentions_extend, Attribute.mentionsOf_variants_none, ite_self, List.append_nil]
  | nested _ _ _ _ _ _ placed _ _ iho =>
      obtain ⟨rfl, -⟩ := returns_placeVariants placed
      rw [iho, Level.mentions_extend, Forest.roots, List.flatMap_cons, List.append_assoc]
      rfl

/-- A level that is opened and filled is linked to the levels that filling it builds at once. -/
theorem linked_of_opens {opened : Level} {s₀ : BuildState} (b : BuiltLevel)
    (opens : Returns (openLevel l) s₀ opened s)
    (visits : Walk attributes l opened s levels b.level t) : Linked b levels.roots := by
  intro observed
  obtain ⟨n, u, -, rfl, -⟩ := returns_openLevel.mp opens
  rw [visits.mentions_fieldsOf]
  cases observed <;> rfl

/-- The levels below those that a walk builds at once are linked. -/
theorem linked (h : Walk attributes l level s levels level' t) :
    ∀ v ∈ levels.families, Linked v.1 v.2 := by
  induction h with
  | nil => simp [Forest.families]
  | flat _ _ _ _ _ ih => exact ih
  | nested _ _ _ opens visits _ _ _ ihb iho =>
      rw [Forest.families]
      rintro v (_ | ⟨_, hv⟩)
      · exact linked_of_opens _ opens visits
      · exact (List.mem_append.mp hv).elim (ihb v) (iho v)

end Walk

end ResourceTypes
