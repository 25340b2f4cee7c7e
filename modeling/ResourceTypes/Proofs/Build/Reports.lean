import ResourceTypes.Proofs.Build.Companions

/-! # What the events of a build report

The events of a build say what kind is built, which types it emits and how it ends.  `Reported s t`
says that between two states only events of the kind are added, none of which ends the build, and
that those of emitted types are the types that are added, in their order.  Every step of a build
reports in this way (`reported`).

The last event of a build is the only one that ends it.  It carries the number of types or the text
of the error, and each type has twice as many companions as there are attached references that name
it (`events_report_outcome`). -/

namespace ResourceTypes

open Build

/-! ### Reports of steps -/

/-- The event ends a build. -/
def AuditEvent.isFinal (e : AuditEvent) : Bool :=
  e.event = .buildCompleted || e.event = .buildFailed

/-- The type and its number of fields, as an event reports them. -/
def AuditEvent.emitted (e : AuditEvent) : Option String × Option Nat := (e.typeName, e.fieldCount)

/-- The type and its number of fields, as they are reported. -/
def TypeDecl.announced (t : TypeDecl) : Option String × Option Nat :=
  (some t.name, some t.fields.length)

/-- Between the states the events report the types that are emitted. -/
structure Reported (s t : BuildState) : Prop where
  kind : t.config.kind = s.config.kind
  events : ∃ es types, t.events = s.events ++ es ∧ t.types = s.types ++ types ∧
    (∀ e ∈ es, e.kind = s.config.kind ∧ e.isFinal = false) ∧
    (eventsOf .typeGenerated es).map AuditEvent.emitted = types.map TypeDecl.announced

namespace Reported

variable {s t u : BuildState}

theorem of_eq (hk : t.config.kind = s.config.kind) (he : t.events = s.events)
    (ht : t.types = s.types) : Reported s t :=
  ⟨hk, [], [], by simp [he], by simp [ht], by simp, rfl⟩

theorem of_event {e : AuditEvent} (hk : t.config.kind = s.config.kind)
    (he : t.events = s.events ++ [e]) (ht : t.types = s.types) (kind : e.kind = s.config.kind)
    (final : e.isFinal = false) (other : e.event ≠ .typeGenerated) : Reported s t := by
  refine ⟨hk, [e], [], he, by simp [ht], List.forall_mem_singleton.mpr ⟨kind, final⟩, ?_⟩
  rw [eventsOf_cons_of_ne _ other]
  rfl

theorem trans (h : Reported s t) (h' : Reported t u) : Reported s u := by
  obtain ⟨hk, es, types, he, ht, hes, htypes⟩ := h
  obtain ⟨hk', es', types', he', ht', hes', htypes'⟩ := h'
  refine ⟨hk'.trans hk, es ++ es', types ++ types', ?_, ?_, ?_, ?_⟩
  · rw [he', he, List.append_assoc]
  · rw [ht', ht, List.append_assoc]
  · rw [hk] at hes'
    exact List.forall_mem_append.mpr ⟨hes, hes'⟩
  · rw [eventsOf_append, List.map_append, List.map_append, htypes, htypes']

end Reported

/-- Every step reports the types that it emits. -/
theorem reported : EffectRelation Reported where
  refl _ := .of_eq rfl rfl rfl
  trans h h' := h.trans h'
  takes _ _ := .of_eq rfl rfl rfl
  documents _ _ _ _ := .of_eq rfl rfl rfl
  registers l target s := by
    rw [runFrom_registerSensitive]
    exact .of_event rfl rfl rfl rfl rfl EventKind.noConfusion
  ignores l s := by
    rw [runFrom_registerIgnored]
    dsimp only
    split
    · exact .of_event rfl rfl rfl rfl rfl EventKind.noConfusion
    · exact .of_eq rfl rfl rfl
  attaches e he s := by
    rw [runFrom_record]
    refine .of_event rfl rfl rfl rfl ?_ ?_
    · simp [AuditEvent.isFinal, he]
    · simp [he]
  emits l name fields s := by
    rw [runFrom_emitType]
    exact ⟨rfl, _, [⟨name, fields⟩], rfl, rfl, List.forall_mem_singleton.mpr ⟨rfl, rfl⟩, rfl⟩

/-! ### The last event -/

section last

variable (kind : String) (s : BuildState) (outcome : Except BuildError Generated)

theorem kind_lastEvent : (lastEvent kind s outcome).kind = kind := by
  cases outcome <;> rfl

theorem isFinal_lastEvent : (lastEvent kind s outcome).isFinal = true := by
  cases outcome <;> rfl

theorem lastEvent_failed_iff :
    (lastEvent kind s outcome).event = .buildFailed ↔ ∃ e, outcome = .error e := by
  cases outcome <;> simp [lastEvent]

theorem eventsOf_lastEvent {k : EventKind} (completed : k ≠ .buildCompleted)
    (failed : k ≠ .buildFailed) : eventsOf k [lastEvent kind s outcome] = [] := by
  refine eventsOf_cons_of_ne [] ?_
  cases outcome with
  | ok g => exact completed.symm
  | error e => exact failed.symm

end last

/-! ### Main statement -/

/-- All events of a build are of its kind, and only the last one ends it: a failure with the text of
its error, or a success with the number of types.  After a success the events of emitted types are
the types in order, and a type has twice as many companions as attached references name it. -/
theorem events_report_outcome (schema : Resource) (config : Config) (symbols : SymbolTable) :
    (∀ e ∈ (build schema config symbols).events, e.kind = config.kind) ∧
    ∃ before last, (build schema config symbols).events = before ++ [last] ∧
      (∀ e ∈ before, e.isFinal = false) ∧ last.isFinal = true ∧
      (last.event = .buildFailed ↔ ∃ e, (build schema config symbols).outcome = .error e) ∧
      (∀ e, (build schema config symbols).outcome = .error e → last.error = some e.message) ∧
      ∀ g, (build schema config symbols).outcome = .ok g →
        last.fieldCount = some g.types.length ∧
        (eventsOf .typeGenerated (build schema config symbols).events).map AuditEvent.emitted =
          g.types.map TypeDecl.announced ∧
        ∀ t ∈ g.types, 2 * attachments t.name (build schema config symbols).events =
          t.fields.countP Field.isCompanion := by
  obtain ⟨hkind, es, types, he, ht, hes, htypes⟩ := reported.finalState schema config symbols
  rw [List.nil_append] at he ht
  have hevents := events_build schema config symbols
  rw [he] at hevents
  refine ⟨?_, es, _, hevents, fun e hmem => (hes e hmem).2, isFinal_lastEvent _ _ _,
    lastEvent_failed_iff _ _ _, ?_, ?_⟩
  · rw [hevents, List.forall_mem_append, List.forall_mem_singleton]
    exact ⟨fun e hmem => (hes e hmem).1, kind_lastEvent _ _ _⟩
  · intro e hout
    rw [hout]
    rfl
  · intro g hout
    have hg := types_of_build schema config symbols hout
    rw [ht] at hg
    refine ⟨?_, ?_, fun t hmem => ?_⟩
    · rw [hout, hg, ← ht]
      rfl
    · rw [hevents, eventsOf_append, eventsOf_lastEvent _ _ _ (by decide) (by decide),
        List.append_nil, htypes, hg]
    · have hcount := attachments_of_build hout hmem
      rw [he] at hcount
      rw [hevents, attachments, eventsOf_append, eventsOf_lastEvent _ _ _ (by decide) (by decide),
        List.append_nil]
      exact hcount

/-- An attribute that refers to another resource, in a nested resource that can be set. -/
def subnetSchema : Resource :=
  .mk
    [("network", .mk { kind := .list, optional := true }
      (.resource (.mk [("subnet_id", .mk { kind := .string, optional := true } .unset)])))]

theorem events_report_outcome_subnet :
    ∃ config g t last, (build subnetSchema config .empty).outcome = .ok g ∧ t ∈ g.types ∧
      t.fields.countP Field.isCompanion = 2 ∧
      attachments t.name (build subnetSchema config .empty).events = 1 ∧
      last ∈ (build subnetSchema config .empty).events ∧ last.isFinal = true ∧
      last.fieldCount = some 4 := by
  let config : Config :=
    { name := "k", kind := "K",
      references := .ofList [(⟨[.field "network", .field "subnet_id"]⟩, { typeName := "Subnet" })] }
  obtain ⟨g, hg, hlen⟩ := BuildResult.exists_ok
    (f := fun g => (g.types.length, g.types.head?.map fun t => t.fields.countP Field.isCompanion))
    (show (build subnetSchema config .empty).outcome.toOption.map _ = some (4, some 2) by
      decide +kernel)
  obtain ⟨-, before, last, hevents, -, hfinal, -, -, hok⟩ :=
    events_report_outcome subnetSchema config .empty
  obtain ⟨hcount, -, hhalf⟩ := hok g hg
  obtain ⟨hfour, hfirst⟩ := Prod.mk.inj hlen
  obtain ⟨t, ht, hcompanions⟩ := Option.map_eq_some_iff.mp hfirst
  have hmem : t ∈ g.types := List.mem_of_mem_head? ht
  have hone := hhalf t hmem
  refine ⟨config, g, t, last, hg, hmem, hcompanions, by omega, ?_, hfinal, ?_⟩
  · rw [hevents]
    exact List.mem_append_right _ (List.mem_singleton_self last)
  · rw [hcount, hfour]

end ResourceTypes
