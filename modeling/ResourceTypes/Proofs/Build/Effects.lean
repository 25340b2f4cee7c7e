import ResourceTypes.Proofs.Build.Composition
import ResourceTypes.Proofs.Build.Walk

/-! # Effects of a build

A build changes its state by few primitive steps.  `Moves R x` says that `x` relates the state
before it to the state after it by `R`, whether it succeeds or fails.

`StateOrder R` is what a sequence asks of `R`, and `EffectRelation R` adds the primitive steps.
A relation that these keep is kept by every run (`EffectRelation.moves_root`).

`finalState` is the state that a build leaves.  A build that succeeds gets there by a walk
(`walk_of_build`). -/

namespace ResourceTypes

open Build

namespace Build

variable {α β : Type} {R : BuildState → BuildState → Prop}

/-- Whatever its outcome, the computation relates the state before it to the state after it. -/
def Moves (R : BuildState → BuildState → Prop) (x : Build α) : Prop :=
  ∀ s, R s (runFrom x s).2

theorem Moves.of_returns {x : Build α} {s t : BuildState} {a : α} (hx : Moves R x)
    (h : Returns x s a t) : R s t := by
  have hs := hx s
  rw [h] at hs
  exact hs

/-- A relation that is kept along sequences. -/
structure StateOrder (R : BuildState → BuildState → Prop) : Prop where
  refl : ∀ s, R s s
  trans : ∀ {s t u}, R s t → R t u → R s u

namespace StateOrder

theorem ofView (view : BuildState → β) : StateOrder fun s t => view t = view s where
  refl _ := rfl
  trans h h' := h'.trans h

theorem composes (h : StateOrder R) : Composes fun _ x => Moves R x where
  value _ s := h.refl s
  error _ s := h.refl s
  sequence := by
    intro α β x f hx hf s
    have hs := hx s
    rw [runFrom_bind]
    rcases hr : runFrom x s with ⟨e | a, u⟩ <;> rw [hr] at hs
    · exact hs
    · exact h.trans hs (hf a u)
  wrapped := by
    intro α step x hx s
    have hs := hx s
    rw [runFrom_within]
    rcases hr : runFrom x s with ⟨e | a, u⟩ <;> rw [hr] at hs <;> exact hs

theorem moves_get (h : StateOrder R) {f : BuildState → Build α} (hf : ∀ s, Moves R (f s)) :
    Moves R (get >>= f) :=
  h.composes.sequence (fun s => h.refl s) hf

theorem moves_allocate (h : StateOrder R) (suffix : String) (chain : List String) :
    Moves R (allocate suffix chain) := by
  intro s
  rw [runFrom_allocate]
  exact h.refl s

theorem moves_openLevel (h : StateOrder R) (takes : ∀ name, Moves R (takeName name))
    (l : Location) : Moves R (openLevel l) :=
  h.composes.openLevel h.moves_allocate takes l

end StateOrder

/-! ### Primitive steps -/

theorem runFrom_record (e : AuditEvent) (s : BuildState) :
    runFrom (record e) s =
      (.ok (), { s with events := s.events ++ [{ e with kind := s.config.kind }] }) := rfl

theorem runFrom_registerSensitive (l : Location) (target : String) (s : BuildState) :
    runFrom (registerSensitive l target) s =
      (.ok (),
        { s with
          config := s.config.addSensitive l.source.spelled target
          events := s.events ++
            [{ event := .sensitiveField
               kind := s.config.kind
               sourcePath := some l.source.spelled
               targetPath := some target }] }) := rfl

theorem runFrom_registerIgnored (l : Location) (s : BuildState) :
    runFrom (registerIgnored l) s =
      (.ok (),
        if s.config.lateInitializer.ignoresSource l.source &&
            !s.config.lateInitializer.ignoresCanonical l.canonical then
          { s with
            config := s.config.addCanonical l.canonical
            events := s.events ++
              [{ event := .lateInitIgnore
                 kind := s.config.kind
                 sourcePath := some l.source.spelled
                 targetPath := some l.canonical.spelled }] }
        else s) := by
  unfold registerIgnored
  rw [runFrom_bind]
  show runFrom (if _ then _ else _) s = _
  split <;> rfl

theorem runFrom_emitType (l : Location) (name : String) (fields : List Field) (s : BuildState) :
    runFrom (emitType l name fields) s =
      (.ok ⟨s.types.length, name⟩,
        { s with
          types := s.types ++ [⟨name, fields⟩]
          events := s.events ++
            [{ event := .typeGenerated
               kind := s.config.kind
               typeName := some name
               sourcePath := some l.source.spelled
               fieldCount := some fields.length }] }) := rfl

/-! ### Whole runs -/

/-- A relation that every primitive step of a build keeps. -/
structure EffectRelation (R : BuildState → BuildState → Prop) : Prop extends StateOrder R where
  takes : ∀ name, Moves R (takeName name)
  documents : ∀ typeName fieldName text, Moves R (document typeName fieldName text)
  registers : ∀ l target, Moves R (registerSensitive l target)
  ignores : ∀ l, Moves R (registerIgnored l)
  attaches : ∀ e : AuditEvent, e.event = .referenceAttached → Moves R (record e)
  emits : ∀ l name fields, Moves R (emitType l name fields)

theorem EffectRelation.steps (h : EffectRelation R) : Steps fun _ x => Moves R x where
  toComposes := h.composes
  allocates := h.moves_allocate
  takes := h.takes
  documents := h.documents
  registers := h.registers
  ignores := h.ignores
  attaches := h.attaches
  emits := h.emits
  sites _ _ _ _ := h.moves_get fun _ => h.composes.value _
  kinds hf := h.moves_get fun s => hf s.config.kind

/-- A run of a build keeps every relation that the primitive steps keep. -/
theorem EffectRelation.moves_root (h : EffectRelation R) (schema : Resource) :
    Moves R (root schema) :=
  h.steps.root schema

end Build

/-! ### The state and the events of a build -/

/-- The events of one kind in order. -/
def eventsOf (kind : EventKind) (events : List AuditEvent) : List AuditEvent :=
  events.filter fun e => e.event = kind

@[simp] theorem eventsOf_nil (kind : EventKind) : eventsOf kind [] = [] := rfl

@[simp] theorem eventsOf_append (kind : EventKind) (events events' : List AuditEvent) :
    eventsOf kind (events ++ events') = eventsOf kind events ++ eventsOf kind events' :=
  List.filter_append ..

theorem eventsOf_cons_of_eq {kind : EventKind} {e : AuditEvent} (events : List AuditEvent)
    (h : e.event = kind) : eventsOf kind (e :: events) = e :: eventsOf kind events :=
  List.filter_cons_of_pos (by simpa using h)

theorem eventsOf_cons_of_ne {kind : EventKind} {e : AuditEvent} (events : List AuditEvent)
    (h : e.event ≠ kind) : eventsOf kind (e :: events) = eventsOf kind events :=
  List.filter_cons_of_neg (by simpa using h)

/-- The state that a build leaves, whether it succeeds or fails. -/
def finalState (schema : Resource) (config : Config) (symbols : SymbolTable) : BuildState :=
  (Build.runFrom (Build.root schema) { symbols, config }).2

section build

variable (schema : Resource) (config : Config) (symbols : SymbolTable)

theorem config_build : (build schema config symbols).config =
    (finalState schema config symbols).config := rfl

theorem events_build : (build schema config symbols).events =
    (finalState schema config symbols).events ++
      [lastEvent config.kind (finalState schema config symbols)
        (build schema config symbols).outcome] := rfl

theorem types_of_build {g : Generated} (h : (build schema config symbols).outcome = .ok g) :
    g.types = (finalState schema config symbols).types := by
  have hb : (build schema config symbols).outcome =
      (Build.runFrom (Build.root schema) { symbols, config }).1.map fun r =>
        ⟨(finalState schema config symbols).types, (finalState schema config symbols).comments,
          r.1.index, r.2.index⟩ := rfl
  rw [hb] at h
  cases hr : (Build.runFrom (Build.root schema) { symbols, config }).1 with
  | error e =>
      rw [hr] at h
      cases h
  | ok refs =>
      rw [hr] at h
      cases h
      rfl

/-- A build ends in a state to which its first state is related. -/
theorem Build.EffectRelation.finalState {R : BuildState → BuildState → Prop}
    (h : EffectRelation R) : R { symbols, config } (finalState schema config symbols) :=
  h.moves_root schema { symbols, config }

end build

theorem finalState_of_returns {schema : Resource} {config : Config} {symbols : SymbolTable}
    {refs : TypeRef × TypeRef} {t : BuildState}
    (h : Returns (resource schema (.root config.kind) 0) { symbols, config } refs t) :
    finalState schema config symbols = t := by
  have hroot : Returns (Build.root schema) { symbols, config } refs t :=
    returns_bind.mpr ⟨_, _, returns_get.mpr ⟨rfl, rfl⟩, returns_within.mpr h⟩
  rw [finalState, show runFrom (Build.root schema) { symbols, config } = _ from hroot]

/-- A build that succeeds opens the level of the root, visits all attributes and closes it. -/
theorem walk_of_build {schema : Resource} {config : Config} {symbols : SymbolTable}
    {g : Generated} (h : (build schema config symbols).outcome = .ok g) :
    ∃ opened filled u v below refs,
      Returns (openLevel (.root config.kind)) { symbols, config } opened u ∧
      Walk schema.attributes (.root config.kind) opened u below filled v ∧
      Returns (closeLevel (.root config.kind) filled) v refs
        (finalState schema config symbols) := by
  obtain ⟨refs, t, hr, -⟩ := returns_root_of_build h
  rw [finalState_of_returns hr]
  obtain ⟨attributes⟩ := schema
  obtain ⟨opened, filled, u, v, hopen, hfill, hclose⟩ := returns_resource hr
  obtain ⟨below, hw⟩ := walk_of_fields hfill
  exact ⟨opened, filled, u, v, below, refs, hopen, hw, hclose⟩

end ResourceTypes
