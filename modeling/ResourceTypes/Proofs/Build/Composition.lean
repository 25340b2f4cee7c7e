import ResourceTypes.Proofs.Build.Resolution

/-! # Composing computations of a build

A build is made of few primitive steps: it takes a name, documents a field, emits a type,
registers a path, reports a reference, or reads the state for the next step.  Everything else puts
these in sequence and wraps errors.  `Composes P` says that the property `P` of computations goes
from the parts of a sequence to the whole, and `Steps P` adds that the primitive steps have it.

Then a whole run has the property (`Steps.root`): the recursion over the schema is done once, here,
for all properties.  It follows the data, with one lemma each for an attribute, a resource and a
list of attributes. -/

namespace ResourceTypes.Build

variable {α β : Type} {P : (α : Type) → Build α → Prop}

/-- A property of computations that sequences have when their parts have it. -/
structure Composes (P : (α : Type) → Build α → Prop) : Prop where
  value : ∀ {α : Type} (a : α), P α (pure a)
  error : ∀ {α : Type} (e : BuildError), P α (throw e)
  sequence : ∀ {α β : Type} {x : Build α} {f : α → Build β}, P α x → (∀ a, P β (f a)) →
    P β (x >>= f)
  wrapped : ∀ {α : Type} {step : BuildStep} {x : Build α}, P α x → P α (within step x)

namespace Composes

/-! ### Steps that only read -/

theorem ofExcept (h : Composes P) (r : Except BuildError α) : P α (ofExcept r) := by
  cases r with
  | ok a => exact h.value a
  | error e => exact h.error e

theorem commentOf (h : Composes P) (l : Location) (description : String) :
    P Comment (commentOf l description) := by
  unfold Build.commentOf
  cases Comment.parse description with
  | ok c => exact h.value c
  | error e => exact h.error _

/-! ### Levels and variants -/

theorem openLevel (h : Composes P)
    (allocates : ∀ suffix chain, P String (allocate suffix chain))
    (takes : ∀ name, P Unit (takeName name)) (l : Location) : P Level (openLevel l) := by
  unfold Build.openLevel
  refine h.sequence (h.wrapped (allocates _ _)) fun parameters => ?_
  refine h.sequence (h.wrapped (allocates _ _)) fun observation => ?_
  refine h.sequence (takes parameters) fun _ => ?_
  exact h.sequence (takes observation) fun _ => h.value _

theorem closeLevel (h : Composes P) (emits : ∀ l name fields, P TypeRef (emitType l name fields))
    (l : Location) (level : Level) : P (TypeRef × TypeRef) (closeLevel l level) := by
  unfold Build.closeLevel
  refine h.sequence (emits l _ _) fun parameters => ?_
  exact h.sequence (emits l _ _) fun observation => h.value _

section documents

variable (h : Composes P)
  (documents : ∀ typeName fieldName text, P Unit (document typeName fieldName text))

include h documents

theorem documentCompanions (typeName : String) (fields : List Field) :
    P Unit (documentCompanions typeName fields) := by
  induction fields with
  | nil => exact h.value ()
  | cons f rest ih => exact h.sequence (documents _ _ _) fun _ => ih

theorem placeObservation (site : Site) (f : Field) (level : Level) :
    P Level (placeObservation site f level) :=
  h.sequence (documents _ _ _) fun _ => h.value _

variable (attaches : ∀ e : AuditEvent, e.event = .referenceAttached → P Unit (record e))

include attaches

theorem placeParameter (site : Site) (f : Field) (level : Level) :
    P Level (placeParameter site f level) := by
  refine h.sequence (documents _ _ _) fun _ => ?_
  cases site.reference with
  | none => exact h.value _
  | some r =>
      refine h.sequence (h.documentCompanions documents _ _) fun _ => ?_
      exact h.sequence (attaches _ rfl) fun _ => h.value _

end documents

theorem registerSettable (h : Composes P) {site : Site}
    (registers : site.sensitive = true →
      ∀ target, P Unit (registerSensitive site.location target)) :
    P Unit (registerSettable site) := by
  unfold Build.registerSettable
  split
  next hs => exact registers hs _
  next => exact h.value ()

section variants

variable (h : Composes P) {site : Site}
  (documents : ∀ typeName fieldName text, P Unit (document typeName fieldName text))
  (registers : site.sensitive = true → ∀ target, P Unit (registerSensitive site.location target))
  (attaches : ∀ e : AuditEvent, e.event = .referenceAttached → P Unit (record e))

include h documents registers attaches

theorem placeVariant (v : Variant) (level : Level) : P Level (placeVariant site v level) := by
  unfold Build.placeVariant
  split
  · split
    next hs => exact h.sequence (registers hs _) fun _ => h.value level
    next => exact h.placeObservation documents site _ level
  · refine h.sequence (h.ofExcept _) fun base => ?_
    refine h.sequence (h.registerSettable registers) fun _ => ?_
    exact h.placeParameter documents attaches site _ level

theorem placeVariants (variants : List Variant) (level : Level) :
    P Level (placeVariants site variants level) := by
  induction variants generalizing level with
  | nil => exact h.value level
  | cons v rest ih =>
      exact h.sequence (h.placeVariant documents registers attaches v level) ih

end variants

/-! ### Attributes and resources -/

theorem schema_collection (h : Composes P) {traits : Traits} {element : Element} {l : Location}
    {depth : Nat} (hk : traits.kind.isCollection = true)
    (resolves : P _ (elementVariants element traits.isObservation l depth)) :
    P _ (schema (.mk traits element) l depth) := by
  rw [schema_eq, Attribute.ofKind?_collection hk, if_pos hk]
  split
  · exact h.error _
  · exact h.sequence resolves fun _ => h.value _

theorem schema (h : Composes P) {a : Attribute} {l : Location} {depth : Nat}
    (builds : ∀ r, a.nested? = some r → P _ (resource r (l.inside a) (depth + a.edges))) :
    P _ (schema a l depth) := by
  induction a using Attribute.chain_induction generalizing l depth with
  | scalar traits element hk =>
      rw [schema_eq]
      split
      · exact h.error _
      · split
        · exact h.value _
        · rw [if_neg (by rw [hk]; exact Bool.false_ne_true)]
          exact h.error _
  | unset traits hk =>
      apply h.schema_collection hk
      rw [elementVariants]
      exact h.value _
  | primitive traits kind hk =>
      apply h.schema_collection hk
      rw [elementVariants]
      split
      · exact h.value _
      · exact h.error _
  | resource traits inner hk =>
      apply h.schema_collection hk
      rw [elementVariants]
      have inside := builds inner (Attribute.nested?_resource inner hk)
      refine h.sequence (h.wrapped inside) fun refs => ?_
      dsimp only
      split <;> exact h.value _
  | schema traits inner hk ih =>
      rw [Attribute.nested?_schema inner hk] at builds
      apply h.schema_collection hk
      rw [elementVariants]
      refine h.sequence (h.wrapped (ih fun r hr => ?_)) fun _ => h.value _
      have inside := builds r hr
      rw [Attribute.edges, ← Nat.add_assoc, Nat.add_right_comm] at inside
      exact inside

theorem resource (h : Composes P) {attributes : List (String × Attribute)} {l : Location}
    {depth : Nat} (opens : P _ (Build.openLevel l))
    (visits : ∀ level, P _ (fields attributes l depth level))
    (closes : ∀ level, P _ (Build.closeLevel l level)) :
    P _ (resource (.mk attributes) l depth) := by
  rw [Build.resource]
  split
  · exact h.error _
  · refine h.sequence opens fun opened => ?_
    exact h.sequence (visits opened) closes

end Composes

/-! ### Whole runs -/

/-- A property of computations that the primitive steps of a build have, and sequences with
them. -/
structure Steps (P : (α : Type) → Build α → Prop) : Prop extends Composes P where
  allocates : ∀ suffix chain, P String (allocate suffix chain)
  takes : ∀ name, P Unit (takeName name)
  documents : ∀ typeName fieldName text, P Unit (document typeName fieldName text)
  registers : ∀ l target, P Unit (registerSensitive l target)
  ignores : ∀ l, P Unit (registerIgnored l)
  attaches : ∀ e : AuditEvent, e.event = .referenceAttached → P Unit (record e)
  emits : ∀ l name fields, P TypeRef (emitType l name fields)
  sites : ∀ name l traits comment, P Site (siteOf name l traits comment)
  kinds : ∀ {α : Type} {f : String → Build α}, (∀ kind, P α (f kind)) →
    P α (get >>= fun s => f s.config.kind)

namespace Steps

theorem resource (h : Steps P) {attributes : List (String × Attribute)}
    (visits : ∀ l depth level, P _ (fields attributes l depth level)) (l : Location)
    (depth : Nat) : P _ (resource (.mk attributes) l depth) :=
  h.toComposes.resource (h.openLevel h.allocates h.takes l) (visits l depth)
    (h.closeLevel h.emits l)

theorem fields_cons (h : Steps P) {name : String} {a : Attribute}
    {rest : List (String × Attribute)}
    (builds : ∀ r, a.nested? = some r → ∀ l depth, P _ (Build.resource r l depth)) {l : Location}
    {depth : Nat} (others : ∀ level, P _ (fields rest l depth level)) (level : Level) :
    P _ (fields ((name, a) :: rest) l depth level) := by
  rw [fields]
  refine h.sequence (h.commentOf _ _) fun comment => ?_
  refine h.sequence (h.ignores _) fun _ => ?_
  refine h.sequence (h.wrapped (h.schema fun r hr => builds r hr _ _)) fun variants => ?_
  refine h.sequence (h.sites _ _ _ _) fun site => ?_
  have placed := h.placeVariants h.documents (fun _ => h.registers site.location) h.attaches
    variants level
  exact h.sequence (h.wrapped placed) others

theorem fields (h : Steps P) (attributes : List (String × Attribute)) (l : Location)
    (depth : Nat) (level : Level) : P _ (fields attributes l depth level) := by
  induction attributes using Resource.attributes_induction generalizing l depth level with
  | nil =>
      rw [Build.fields]
      exact h.value level
  | flat name a rest ha ih =>
      refine h.fields_cons (fun r hr => ?_) (ih l depth) level
      rw [ha] at hr
      cases hr
  | nested name a inner rest ha ihi ihr =>
      refine h.fields_cons (fun r hr => ?_) (ihr l depth) level
      rw [ha] at hr
      cases hr
      exact h.resource ihi

/-- A run of a build has every property that the primitive steps have. -/
theorem root (h : Steps P) (schema : Resource) : P _ (root schema) := by
  obtain ⟨attributes⟩ := schema
  exact h.kinds fun kind => h.wrapped (h.resource (h.fields attributes) _ 0)

end Steps

end ResourceTypes.Build
