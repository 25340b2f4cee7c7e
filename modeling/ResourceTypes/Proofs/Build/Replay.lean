import ResourceTypes.Proofs.Build.Effects
import ResourceTypes.Proofs.OrderedSet

/-! # Replaying the events of a build

The events of a build say all that it writes to the configuration.  `Replay c events d` reads
them in order from the configuration `c`: a sensitive field puts its target under its source path,
an ignored field registers a canonical path that was not registered before and is spelled as its
target, and no other event writes anything.

What a replay changes is read off its events (`Replay.sensitive_eq`, `Replay.ignored_eq`), and
nothing else is changed (`Replay.frame`).  Every step of a build reports what it writes
(`explained`), so that the events of a whole build, be it stopped by an error at any point, lead
from the configuration before it to the one after it (`events_explain_config`). -/

namespace ResourceTypes

open Build

/-- What the events say leads from the first configuration to the second. -/
inductive Replay : Config → List AuditEvent → Config → Prop
  | done (c : Config) : Replay c [] c
  | sensitive {c d : Config} {e : AuditEvent} {es : List AuditEvent} {source target : String}
      (kind : e.event = .sensitiveField) (at_source : e.sourcePath = some source)
      (to_target : e.targetPath = some target) (rest : Replay (c.addSensitive source target) es d) :
      Replay c (e :: es) d
  | ignored {c d : Config} {e : AuditEvent} {es : List AuditEvent} {p : CanonicalPath}
      (kind : e.event = .lateInitIgnore) (fresh : c.lateInitializer.ignoresCanonical p = false)
      (shown : e.targetPath = some p.spelled) (rest : Replay (c.addCanonical p) es d) :
      Replay c (e :: es) d
  | other {c d : Config} {e : AuditEvent} {es : List AuditEvent}
      (silent : e.event ≠ .sensitiveField ∧ e.event ≠ .lateInitIgnore) (rest : Replay c es d) :
      Replay c (e :: es) d

namespace Replay

variable {c d d' : Config} {es es' : List AuditEvent}

theorem append (h : Replay c es d) (h' : Replay d es' d') : Replay c (es ++ es') d' := by
  induction h with
  | done c => exact h'
  | sensitive kind at_source to_target _ ih => exact .sensitive kind at_source to_target (ih h')
  | ignored kind fresh shown _ ih => exact .ignored kind fresh shown (ih h')
  | other silent _ ih => exact .other silent (ih h')

/-- Only the two registries are written to. -/
theorem frame (h : Replay c es d) :
    d.name = c.name ∧ d.kind = c.kind ∧ d.references = c.references ∧
      d.lateInitializer.ignoredFields = c.lateInitializer.ignoredFields := by
  induction h with
  | done c => exact ⟨rfl, rfl, rfl, rfl⟩
  | sensitive _ _ _ _ ih => exact ih
  | ignored _ _ _ _ ih => exact ih
  | other _ _ ih => exact ih

/-- The targets of sensitive fields are put in as the events give them. -/
theorem sensitive_eq (h : Replay c es d) :
    ∃ entries, d.sensitive = c.sensitive.insertAll entries ∧
      (eventsOf .sensitiveField es).map (fun e => (e.sourcePath, e.targetPath)) =
        entries.map fun v => (some v.1, some v.2) := by
  induction h with
  | done c => exact ⟨[], rfl, rfl⟩
  | @sensitive c d e es source target kind at_source to_target _ ih =>
      obtain ⟨entries, hmap, hevents⟩ := ih
      refine ⟨(source, target) :: entries, hmap, ?_⟩
      rw [eventsOf_cons_of_eq es kind, List.map_cons, hevents, at_source, to_target, List.map_cons]
  | @ignored c d e es p kind _ _ _ ih =>
      have other : e.event ≠ .sensitiveField := by rw [kind]; decide
      rw [eventsOf_cons_of_ne es other]
      exact ih
  | @other c d e es silent _ ih =>
      rw [eventsOf_cons_of_ne es silent.1]
      exact ih

/-- The canonical paths that the events show are added, and each was new when it was. -/
theorem ignored_eq (h : Replay c es d) :
    ∃ added, added.Nodup ∧ (∀ p ∈ added, c.lateInitializer.ignoresCanonical p = false) ∧
      d.lateInitializer.ignoredCanonical = c.lateInitializer.ignoredCanonical.addAll added ∧
      (eventsOf .lateInitIgnore es).map AuditEvent.targetPath =
        added.map fun p => some p.spelled := by
  induction h with
  | done c => exact ⟨[], .nil, by simp, rfl, rfl⟩
  | @sensitive c d e es source target kind _ _ _ ih =>
      have other : e.event ≠ .lateInitIgnore := by rw [kind]; decide
      rw [eventsOf_cons_of_ne es other]
      exact ih
  | @ignored c d e es p kind fresh shown _ ih =>
      obtain ⟨added, hnodup, hfresh, hset, hevents⟩ := ih
      -- What is added later was not there with `p` in the set, so that it is not `p`.
      have hlater (q : CanonicalPath) (hq : q ∈ added) :
          q ≠ p ∧ c.lateInitializer.ignoresCanonical q = false :=
        (OrderedSet.contains_add_eq_false _ p q).mp (hfresh q hq)
      refine ⟨p :: added, List.nodup_cons.mpr ⟨fun hp => (hlater p hp).1 rfl, hnodup⟩,
        List.forall_mem_cons.mpr ⟨fresh, fun q hq => (hlater q hq).2⟩, hset, ?_⟩
      rw [eventsOf_cons_of_eq es kind, List.map_cons, hevents, shown, List.map_cons]
  | @other c d e es silent _ ih =>
      rw [eventsOf_cons_of_ne es silent.2]
      exact ih

end Replay

/-! ### Every step reports what it writes -/

/-- The events between the states explain how the configuration changed. -/
def Explained (s t : BuildState) : Prop :=
  ∃ es, t.events = s.events ++ es ∧ Replay s.config es t.config

theorem Explained.of_eq {s t : BuildState} (hc : t.config = s.config) (he : t.events = s.events) :
    Explained s t :=
  ⟨[], by rw [he, List.append_nil], hc ▸ .done _⟩

theorem explained : EffectRelation Explained where
  refl _ := .of_eq rfl rfl
  trans := by
    rintro s t u ⟨es, he, hr⟩ ⟨es', he', hr'⟩
    exact ⟨es ++ es', by rw [he', he, List.append_assoc], hr.append hr'⟩
  takes _ _ := .of_eq rfl rfl
  documents _ _ _ _ := .of_eq rfl rfl
  registers l target s := by
    rw [runFrom_registerSensitive]
    exact ⟨_, rfl, .sensitive rfl rfl rfl (.done _)⟩
  ignores l s := by
    rw [runFrom_registerIgnored]
    dsimp only
    split
    next h =>
      rw [Bool.and_eq_true, Bool.not_eq_true'] at h
      exact ⟨_, rfl, .ignored rfl h.2 rfl (.done _)⟩
    next => exact .of_eq rfl rfl
  attaches e he s := by
    rw [runFrom_record]
    refine ⟨_, rfl, .other ?_ (.done _)⟩
    rw [he]
    decide
  emits l name fields s := by
    rw [runFrom_emitType]
    have silent : EventKind.typeGenerated ≠ .sensitiveField ∧
        EventKind.typeGenerated ≠ .lateInitIgnore := by decide
    exact ⟨_, rfl, .other silent (.done _)⟩

theorem Replay.last (c : Config) (kind : String) (s : BuildState)
    (outcome : Except BuildError Generated) : Replay c [lastEvent kind s outcome] c := by
  refine .other ?_ (.done c)
  cases outcome <;> exact ⟨EventKind.noConfusion, EventKind.noConfusion⟩

/-- The events of a build lead from its configuration to the one that it leaves. -/
theorem replay_build (schema : Resource) (config : Config) (symbols : SymbolTable) :
    Replay config (build schema config symbols).events (build schema config symbols).config := by
  obtain ⟨es, he, hr⟩ := explained.finalState schema config symbols
  have hstart : (finalState schema config symbols).events = es := he
  rw [events_build, config_build, hstart]
  exact hr.append (.last _ _ _ _)

/-! ### Main statement -/

/-- The events of a build lead from its configuration to the one that it leaves.  Its name, kind,
ignored fields and references are kept, the targets of sensitive fields are put in as the events
give them, the canonical paths that the events show are added once each, and nothing is lost. -/
theorem events_explain_config (schema : Resource) (config : Config) (symbols : SymbolTable) :
    Replay config (build schema config symbols).events (build schema config symbols).config ∧
    ((build schema config symbols).config.name = config.name ∧
      (build schema config symbols).config.kind = config.kind ∧
      (build schema config symbols).config.references = config.references ∧
      (build schema config symbols).config.lateInitializer.ignoredFields =
        config.lateInitializer.ignoredFields) ∧
    (∃ entries,
      (build schema config symbols).config.sensitive = config.sensitive.insertAll entries ∧
      (eventsOf .sensitiveField (build schema config symbols).events).map
          (fun e => (e.sourcePath, e.targetPath)) = entries.map fun v => (some v.1, some v.2)) ∧
    (∃ added, added.Nodup ∧ (∀ p ∈ added, config.lateInitializer.ignoresCanonical p = false) ∧
      (build schema config symbols).config.lateInitializer.ignoredCanonical =
        config.lateInitializer.ignoredCanonical.addAll added ∧
      (eventsOf .lateInitIgnore (build schema config symbols).events).map AuditEvent.targetPath =
        added.map fun p => some p.spelled) ∧
    (∀ p, config.lateInitializer.ignoresCanonical p = true →
      (build schema config symbols).config.lateInitializer.ignoresCanonical p = true) ∧
    ∀ key, (config.targetFor? key).isSome = true →
      ((build schema config symbols).config.targetFor? key).isSome = true := by
  have hr := replay_build schema config symbols
  obtain ⟨entries, hmap, hentries⟩ := hr.sensitive_eq
  obtain ⟨added, hnodup, hfresh, hset, hadded⟩ := hr.ignored_eq
  refine ⟨hr, hr.frame, ⟨entries, hmap, hentries⟩, ⟨added, hnodup, hfresh, hset, hadded⟩,
    fun p hp => ?_, fun key hkey => ?_⟩
  · rw [LateInitializer.ignoresCanonical, hset]
    exact (OrderedSet.contains_addAll _ added p).mpr (.inl hp)
  · rw [Config.targetFor?, hmap]
    exact OrderedMap.contains_insertAll_of_contains entries hkey

/-- A secret that is ignored, and after it an attribute that the build rejects. -/
def rejectedSchema : Resource :=
  .mk
    [("token", .mk { kind := .string, optional := true, sensitive := true } .unset),
      ("zone", .mk { kind := .invalid } .unset)]

theorem events_explain_config_rejected :
    ∃ config : Config, (build rejectedSchema config .empty).outcome.toOption = none ∧
      config.lateInitializer.ignoresCanonical ⟨["Zone"]⟩ = true ∧
      (config.targetFor? "old").isSome = true ∧
      (eventsOf .sensitiveField (build rejectedSchema config .empty).events).length = 1 ∧
      (eventsOf .lateInitIgnore (build rejectedSchema config .empty).events).length = 1 ∧
      (build rejectedSchema config .empty).config.lateInitializer.ignoresCanonical ⟨["Zone"]⟩ =
        true ∧
      ((build rejectedSchema config .empty).config.targetFor? "old").isSome = true := by
  let config : Config :=
    { name := "k", kind := "K",
      lateInitializer := ⟨[⟨[.field "token"]⟩, ⟨[.field "zone"]⟩], .ofMembers [⟨["Zone"]⟩]⟩,
      sensitive := .ofList [("old", "gone")] }
  have hzone : config.lateInitializer.ignoresCanonical ⟨["Zone"]⟩ = true := by decide +kernel
  have hold : (config.targetFor? "old").isSome = true := by decide +kernel
  obtain ⟨-, -, -, -, hcanonical, htargets⟩ := events_explain_config rejectedSchema config .empty
  exact ⟨config, by decide +kernel, hzone, hold, by decide +kernel, by decide +kernel,
    hcanonical ⟨["Zone"]⟩ hzone, htargets "old" hold⟩

end ResourceTypes
