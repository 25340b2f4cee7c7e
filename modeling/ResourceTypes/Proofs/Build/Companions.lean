import ResourceTypes.Proofs.Build.Effects
import ResourceTypes.Proofs.Build.TypeNames

/-! # Companions and reported references

A field is a companion when its type holds a reference or a selector (`Field.isCompanion`); no
field that an attribute makes by itself does.  A build reports one attached reference for every
two companions that it places.  The companions of a level are counted with the level until the
level is closed, and with the emitted types from then on, so that both sides keep their balance
along a walk (`Balanced`, `Walk.balanced`).

At the end no level is open.  As the names of the types are distinct, each type has twice as many
companions as there are attached references that name it (`attachments_of_build`). -/

namespace ResourceTypes

open Build

/-! ### Companions -/

/-- The type holds a reference or a selector. -/
def ValueType.refers : ValueType → Bool
  | .reference | .selector => true
  | .pointer inner | .list inner | .map inner => inner.refers
  | .primitive _ | .named _ | .secretKeySelector => false

/-- The field leads to another resource and not to a value. -/
def Field.isCompanion (f : Field) : Bool := f.type.refers

/-- The number of companions among fields. -/
def companionCount (fields : List Field) : Nat := fields.countP Field.isCompanion

@[simp] theorem companionCount_nil : companionCount [] = 0 := rfl

@[simp] theorem companionCount_append (fields fields' : List Field) :
    companionCount (fields ++ fields') = companionCount fields + companionCount fields' :=
  List.countP_append

theorem companionCount_cons {f : Field} (fields : List Field) (h : f.isCompanion = false) :
    companionCount (f :: fields) = companionCount fields :=
  List.countP_cons_of_neg (by rw [h]; exact Bool.false_ne_true)

theorem length_companions (f : Field) (r : Reference) : (companions f r).length = 2 := by
  unfold companions
  split <;> rfl

theorem isCompanion_of_mem_companions {f : Field} {r : Reference} :
    ∀ c ∈ companions f r, c.isCompanion = true := by
  unfold companions
  split <;> simp [companion, Field.isCompanion, ValueType.refers]

theorem companionCount_companions (f : Field) (r : Reference) :
    companionCount (companions f r) = 2 := by
  rw [companionCount, List.countP_eq_length.mpr isCompanion_of_mem_companions, length_companions]

/-! ### Fields of values -/

theorem refers_collectionOf (kind : ValueKind) (t : ValueType) :
    (collectionOf kind t).refers = t.refers := by
  unfold collectionOf
  split <;> rfl

namespace Attribute

theorem refers_variantsOver {traits : Traits} {elements : List Variant}
    (h : ∀ v ∈ elements, v.type.refers = false) :
    ∀ v ∈ variantsOver traits elements, v.type.refers = false := by
  intro v hv
  unfold variantsOver at hv
  split at hv
  · rw [List.mem_singleton.mp hv]
    rfl
  · obtain ⟨w, hw, rfl⟩ := List.mem_map.mp hv
    rw [refers_collectionOf]
    exact h w hw

theorem refers_variants (names : Option TypeNames) :
    ∀ a : Attribute, ∀ v ∈ a.variants names, v.type.refers = false
  | .mk traits .unset => refers_variantsOver (by simp [ValueType.refers])
  | .mk traits (.primitive kind) => refers_variantsOver (by simp [ValueType.refers])
  | .mk traits (.schema inner) => by
      refine refers_variantsOver fun v hv => ?_
      obtain ⟨w, hw, rfl⟩ := List.mem_map.mp hv
      exact refers_variants names inner w hw
  | .mk traits (.resource _) => by
      refine refers_variantsOver fun v hv => ?_
      obtain ⟨n, -, hv⟩ := List.mem_flatMap.mp hv
      cases ho : traits.isObservation <;> simp only [ho] at hv <;> simp at hv
      · rcases hv with rfl | rfl <;> rfl
      · rw [hv]
        rfl

end Attribute

theorem Site.isCompanion_tagged (site : Site) (isObservation : Bool) (f : Field) :
    (site.tagged isObservation f).isCompanion = f.isCompanion := rfl

theorem refers_secretField? {name : String} {type : ValueType} {optional : Bool}
    {secret : SecretField} (h : secretField? name type optional = some secret) :
    secret.type.refers = false := by
  unfold secretField? at h
  split at h
  · cases optional <;> cases h <;> rfl
  · cases h

theorem Site.isCompanion_base {site : Site} {type : ValueType} {f : Field}
    (h : site.base type = .ok f) (ht : type.refers = false) : f.isCompanion = false := by
  unfold Site.base at h
  split at h
  · split at h
    next secret hsecret =>
      cases h
      exact refers_secretField? hsecret
    next => cases h
  · cases h
    exact ht

/-! ### Counting -/

/-- The number of attached references that name the type. -/
def attachments (name : String) (events : List AuditEvent) : Nat :=
  (eventsOf .referenceAttached events).countP fun e => e.typeName = some name

theorem attachments_append_singleton (name : String) (events : List AuditEvent) {e : AuditEvent}
    (he : e.event = .referenceAttached) :
    attachments name (events ++ [e]) =
      attachments name events + if e.typeName = some name then 1 else 0 := by
  rw [attachments, eventsOf_append, eventsOf_cons_of_eq _ he, eventsOf_nil, List.countP_append,
    List.countP_singleton, attachments]
  simp only [decide_eq_true_eq]

/-- The number of companions in the types of a name. -/
def companionsIn (name : String) (types : List TypeDecl) : Nat :=
  companionCount ((types.filter fun t => t.name = name).flatMap TypeDecl.fields)

@[simp] theorem companionsIn_nil (name : String) : companionsIn name [] = 0 := rfl

theorem companionsIn_cons (name : String) (t : TypeDecl) (types : List TypeDecl) :
    companionsIn name (t :: types) =
      (if t.name = name then companionCount t.fields else 0) + companionsIn name types := by
  unfold companionsIn
  rw [List.filter_cons]
  split <;> simp_all

theorem companionsIn_append (name : String) (types types' : List TypeDecl) :
    companionsIn name (types ++ types') = companionsIn name types + companionsIn name types' := by
  simp [companionsIn]

theorem companionsIn_of_not_mem {name : String} {types : List TypeDecl}
    (h : name ∉ types.map TypeDecl.name) : companionsIn name types = 0 := by
  have hnone : types.filter (fun t => t.name = name) = [] := by
    refine List.filter_eq_nil_iff.mpr fun t ht hname => h ?_
    rw [← of_decide_eq_true hname]
    exact List.mem_map_of_mem ht
  rw [companionsIn, hnone]
  rfl

theorem companionsIn_of_mem {types : List TypeDecl} (nodup : (types.map TypeDecl.name).Nodup)
    {t : TypeDecl} (h : t ∈ types) : companionsIn t.name types = companionCount t.fields := by
  induction types with
  | nil => cases h
  | cons first rest ih =>
      obtain ⟨hnew, nodup⟩ := List.nodup_cons.mp nodup
      rw [companionsIn_cons]
      rcases List.mem_cons.mp h with rfl | h
      · rw [if_pos rfl, companionsIn_of_not_mem hnew, Nat.add_zero]
      · have hne : first.name ≠ t.name := fun e => hnew (e ▸ List.mem_map_of_mem h)
        rw [if_neg hne, ih nodup h, Nat.zero_add]

/-- The number of companions that are placed in the types of a level that have a name. -/
def Level.companionsIn (name : String) (l : Level) : Nat :=
  ResourceTypes.companionsIn name
    [⟨l.parameters, l.parameterFields⟩, ⟨l.observation, l.observationFields⟩]

theorem Level.companionsIn_extend (name : String) (l : Level)
    (parameters observation : List Field) :
    (l.extend parameters observation).companionsIn name =
      l.companionsIn name + (if l.parameters = name then companionCount parameters else 0) +
        if l.observation = name then companionCount observation else 0 := by
  simp only [Level.companionsIn, companionsIn_cons, companionsIn_nil, Level.extend,
    companionCount_append]
  split <;> split <;> omega

/-! ### Balance -/

/-- Between the states two companions are placed for every attached reference; those of closed
levels are counted with the types. -/
def Balanced (name : String) (l : Level) (s : BuildState) (l' : Level) (t : BuildState) : Prop :=
  2 * attachments name t.events + l.companionsIn name + companionsIn name s.types =
    2 * attachments name s.events + l'.companionsIn name + companionsIn name t.types

/-- The states have the same events of attached references. -/
def KeepsAttached (s t : BuildState) : Prop :=
  eventsOf .referenceAttached t.events = eventsOf .referenceAttached s.events

theorem keepsAttached : StateOrder KeepsAttached :=
  .ofView fun s => eventsOf .referenceAttached s.events

theorem KeepsAttached.of_event {s t : BuildState} {e : AuditEvent} (h : t.events = s.events ++ [e])
    (he : e.event ≠ .referenceAttached) : KeepsAttached s t := by
  rw [KeepsAttached, h, eventsOf_append, eventsOf_cons_of_ne _ he, eventsOf_nil, List.append_nil]

namespace Balanced

variable {name : String} {l l' l'' : Level} {s t u : BuildState}

theorem refl (l : Level) (s : BuildState) : Balanced name l s l s := rfl

theorem trans (h : Balanced name l s l' t) (h' : Balanced name l' t l'' u) :
    Balanced name l s l'' u := by
  unfold Balanced at *
  omega

theorem of_keeps (hk : KeepsAttached s t) (ht : t.types = s.types)
    (hl : l'.companionsIn name = l.companionsIn name) : Balanced name l s l' t := by
  have hcount : attachments name t.events = attachments name s.events := by
    rw [attachments, hk, attachments]
  rw [Balanced, hcount, ht, hl]

end Balanced

namespace Build

variable {s t : BuildState}

theorem keepsAttached_document (typeName fieldName text : String) :
    Moves KeepsAttached (document typeName fieldName text) := fun _ => rfl

theorem keepsAttached_registerSensitive (l : Location) (target : String) :
    Moves KeepsAttached (registerSensitive l target) := by
  intro s
  rw [runFrom_registerSensitive]
  exact .of_event rfl EventKind.noConfusion

theorem keepsAttached_emitType (l : Location) (name : String) (fields : List Field) :
    Moves KeepsAttached (emitType l name fields) := by
  intro s
  rw [runFrom_emitType]
  exact .of_event rfl EventKind.noConfusion

theorem keepsAttached_registerIgnored (l : Location) :
    Moves KeepsAttached (registerIgnored l) := by
  intro s
  rw [runFrom_registerIgnored]
  dsimp only
  split
  · exact .of_event rfl EventKind.noConfusion
  · rfl

theorem balanced_registerIgnored {l : Location} (name : String) (level : Level)
    (h : Returns (registerIgnored l) s () t) : Balanced name level s level t :=
  .of_keeps ((keepsAttached_registerIgnored l).of_returns h) (keepsTypes_registerIgnored h).types
    rfl

theorem balanced_placeParameter {site : Site} {f : Field} {level level' : Level} (name : String)
    (hf : f.isCompanion = false) (h : Returns (placeParameter site f level) s level' t) :
    Balanced name level s level' t := by
  obtain ⟨_, u, hd, h⟩ := returns_bind.mp h
  have hdoc := (keepsAttached_document _ _ _).of_returns hd
  have htypes := keepsTypes_document hd
  cases hr : site.reference with
  | none =>
      simp only [hr] at h
      obtain ⟨rfl, rfl⟩ := returns_pure.mp h
      refine .of_keeps hdoc htypes.types ?_
      rw [Level.addParameters_eq, Level.companionsIn_extend, companionCount_cons _ hf]
      simp
  | some r =>
      simp only [hr] at h
      obtain ⟨_, v, hc, h⟩ := returns_bind.mp h
      obtain ⟨_, w, hrec, h⟩ := returns_bind.mp h
      obtain ⟨rfl, rfl⟩ := returns_pure.mp h
      have hcomp : KeepsAttached u v :=
        (keepsAttached.composes.documentCompanions keepsAttached_document _ _).of_returns hc
      have hsame : Balanced name level s level v :=
        .of_keeps (keepsAttached.trans hdoc hcomp)
          (htypes.trans (keepsTypes_documentCompanions hc)).types rfl
      refine hsame.trans ?_
      rw [Returns, runFrom_record, Prod.mk.injEq] at hrec
      obtain ⟨-, rfl⟩ := hrec
      rw [Balanced, Level.addParameters_eq, Level.companionsIn_extend, companionCount_cons _ hf,
        companionCount_companions, companionCount_nil, ite_self,
        attachments_append_singleton name v.events rfl]
      simp only [Option.some.injEq]
      split <;> omega

theorem balanced_placeObservation {site : Site} {f : Field} {level level' : Level} (name : String)
    (hf : f.isCompanion = false) (h : Returns (placeObservation site f level) s level' t) :
    Balanced name level s level' t := by
  obtain ⟨rfl, hk⟩ := returns_placeObservation h
  have hattached : KeepsAttached s t :=
    (keepsAttached.composes.placeObservation keepsAttached_document site f level).of_returns h
  refine .of_keeps hattached hk.types ?_
  rw [Level.companionsIn_extend, companionCount_cons _ hf]
  simp

theorem balanced_placeVariant {site : Site} {v : Variant} {level level' : Level} (name : String)
    (hv : v.type.refers = false) (h : Returns (placeVariant site v level) s level' t) :
    Balanced name level s level' t := by
  obtain ⟨-, -, rfl, hreg⟩ | ⟨-, -, hplaced⟩ | ⟨-, base, u, hbase, hreg, hplaced⟩ :=
    placeVariant_cases h
  · exact .of_keeps ((keepsAttached_registerSensitive _ _).of_returns hreg)
      (keepsTypes_registerSensitive hreg).types rfl
  · have hvalue : (site.tagged true (site.plain v.type)).isCompanion = false := by
      rw [Site.isCompanion_tagged]
      exact hv
    exact balanced_placeObservation name hvalue hplaced
  · have hvalue : (site.tagged false base).isCompanion = false := by
      rw [Site.isCompanion_tagged]
      exact Site.isCompanion_base hbase hv
    have hattached : KeepsAttached s u :=
      (keepsAttached.composes.registerSettable fun _ =>
        keepsAttached_registerSensitive _).of_returns hreg
    have hsettable : Balanced name level s level u :=
      .of_keeps hattached (keepsTypes_registerSettable hreg).types rfl
    exact hsettable.trans (balanced_placeParameter name hvalue hplaced)

theorem balanced_placeVariants {site : Site} {variants : List Variant} {level level' : Level}
    (name : String) (hv : ∀ v ∈ variants, v.type.refers = false)
    (h : Returns (placeVariants site variants level) s level' t) :
    Balanced name level s level' t := by
  induction variants generalizing level s with
  | nil =>
      obtain ⟨rfl, rfl⟩ := returns_pure.mp h
      exact .refl level s
  | cons v rest ih =>
      obtain ⟨placed, u, hplaced, hrest⟩ := returns_bind.mp h
      obtain ⟨hfirst, hothers⟩ := List.forall_mem_cons.mp hv
      exact (balanced_placeVariant name hfirst hplaced).trans (ih hothers hrest)

end Build

/-- From the opening of a level to its end its companions become those of its types. -/
theorem Balanced.of_level {name : String} {loc : Location} {opened filled : Level}
    {s u v t : BuildState} {refs : TypeRef × TypeRef} (opens : Returns (openLevel loc) s opened u)
    (visits : Balanced name opened u filled v) (closes : Returns (closeLevel loc filled) v refs t)
    (l : Level) : Balanced name l s l t := by
  have hclose : KeepsAttached v t :=
    (keepsAttached.composes.closeLevel keepsAttached_emitType loc filled).of_returns closes
  have hcount : attachments name t.events = attachments name v.events := by
    rw [attachments, hclose, attachments]
  obtain ⟨n, w, -, rfl, rfl⟩ := returns_openLevel.mp opens
  obtain ⟨-, -, htypes⟩ := returns_closeLevel closes
  have hempty : Level.companionsIn name
      { parameters := n.parameters, observation := n.observation } = 0 := by
    simp [Level.companionsIn, companionsIn_cons]
  have hfilled : companionsIn name t.types =
      companionsIn name v.types + filled.companionsIn name := by
    rw [htypes, companionsIn_append, Level.companionsIn]
  unfold Balanced at *
  dsimp only at visits
  omega

/-- A walk keeps the balance. -/
theorem Walk.balanced {attributes : List (String × Attribute)} {l : Location}
    {level level' : Level} {s t : BuildState} {levels : Forest BuiltLevel}
    (h : Walk attributes l level s levels level' t) (name : String) :
    Balanced name level s level' t := by
  induction h with
  | nil => exact .refl _ _
  | flat _ _ registered placed _ ih =>
      have hplaced := balanced_placeVariants name (Attribute.refers_variants _ _) placed
      exact ((balanced_registerIgnored name _ registered).trans hplaced).trans ih
  | nested _ _ registered opens _ closes placed _ ihb iho =>
      have hplaced := balanced_placeVariants name (Attribute.refers_variants _ _) placed
      have hinner := Balanced.of_level opens ihb closes
      exact (((balanced_registerIgnored name _ registered).trans (hinner _)).trans
        hplaced).trans iho

theorem Built.nodup_names {schema : Resource} {config : Config} {symbols : SymbolTable}
    {g : Generated} {levels : Forest BuiltLevel} (h : Built schema config symbols g levels) :
    (g.types.map TypeDecl.name).Nodup := by
  rw [h.map_name_types]
  exact h.namedBy.nodup.1

/-- A type has two companions for each attached reference that names it. -/
theorem attachments_of_build {schema : Resource} {config : Config} {symbols : SymbolTable}
    {g : Generated} (h : (build schema config symbols).outcome = .ok g) {t : TypeDecl}
    (ht : t ∈ g.types) :
    2 * attachments t.name (finalState schema config symbols).events = companionCount t.fields := by
  obtain ⟨opened, filled, u, v, below, refs, opens, visits, closes⟩ := walk_of_build h
  have hbalance := Balanced.of_level opens (visits.balanced t.name) closes opened
  obtain ⟨levels, hb⟩ := built_of_build h
  rw [← companionsIn_of_mem hb.nodup_names ht, types_of_build schema config symbols h]
  have hstart : attachments t.name [] = 0 := rfl
  have hnone : companionsIn t.name [] = 0 := rfl
  unfold Balanced at hbalance
  dsimp only at hbalance
  omega

end ResourceTypes
