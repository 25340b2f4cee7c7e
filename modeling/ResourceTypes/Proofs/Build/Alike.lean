import ResourceTypes.Proofs.Build.Decisions
import ResourceTypes.Proofs.Build.Registers

/-! # Runs that are alike

A build reads the kind and the references of its configuration.  Its name is never read, and of
the registries only a registration itself depends on what they hold.  `Alike s s'` says that two
states agree on everything that is read for the result, and `RunsAlike x` says that the computation
gives the same result from both, leaves them alike, and makes the same decisions in both.

The primitive steps run alike, so every build does (`runsAlike`).  The outcome of a build depends on
the configuration only through its kind and its references (`outcome_eq_of_references_eq`).  A build
for the configuration that another one left makes the same decisions for which that configuration
is settled, so that it changes nothing more (`build_again`). -/

namespace ResourceTypes

open Build

/-- The states differ at most in the events and in the name and the registries of the
configuration. -/
structure Alike (s s' : BuildState) : Prop where
  symbols : s.symbols.SameNames s'.symbols
  types : s'.types = s.types
  comments : s'.comments = s.comments
  kind : s'.config.kind = s.config.kind
  references : s'.config.references = s.config.references

namespace Alike

variable {s s' t t' : BuildState} {ds : List Decision}

/-- States that are alike stay so when both make the same decisions and change nothing else that
is read. -/
theorem of_performs (h : Performs ds s t) (h' : Performs ds s' t')
    (symbols : t.symbols.SameNames t'.symbols) (types : t'.types = t.types)
    (comments : t'.comments = t.comments) (alike : Alike s s') : Alike t t' where
  symbols := symbols
  types := types
  comments := comments
  kind := by rw [h.config, h'.config, kind_configAfter, kind_configAfter, alike.kind]
  references := by
    rw [h.config, h'.config, references_configAfter, references_configAfter, alike.references]

end Alike

namespace Build

variable {α β : Type}

/-- From states that are alike the computation gives one result and makes one list of decisions,
and it leaves states that are alike. -/
def RunsAlike (x : Build α) : Prop :=
  ∀ s s', Alike s s' → ∃ r t t' ds, runFrom x s = (r, t) ∧ runFrom x s' = (r, t') ∧
    Alike t t' ∧ Performs ds s t ∧ Performs ds s' t'

namespace RunsAlike

theorem of_result {x : Build α}
    (h : ∀ s s', Alike s s' → ∃ r, runFrom x s = (r, s) ∧ runFrom x s' = (r, s')) :
    RunsAlike x := by
  intro s s' alike
  obtain ⟨r, hr, hr'⟩ := h s s' alike
  exact ⟨r, s, s', [], hr, hr', alike, .refl s, .refl s'⟩

theorem of_decision {x : Build Unit} (d : Decision)
    (h : ∀ s, runFrom x s =
      (.ok (), { s with config := d.config s.config, events := s.events ++ d.events s.config })) :
    RunsAlike x := by
  intro s s' alike
  have hs : Performs [d] s (runFrom x s).2 := by
    rw [h]
    exact .of_decision d rfl rfl
  have hs' : Performs [d] s' (runFrom x s').2 := by
    rw [h]
    exact .of_decision d rfl rfl
  rw [h] at hs hs'
  exact ⟨_, _, _, [d], h s, h s',
    .of_performs hs hs' alike.symbols alike.types alike.comments alike, hs, hs'⟩

theorem composes : Composes fun _ x => RunsAlike x where
  value a := of_result fun _ _ _ => ⟨.ok a, rfl, rfl⟩
  error e := of_result fun _ _ _ => ⟨.error e, rfl, rfl⟩
  sequence := by
    intro α β x f hx hf s s' alike
    obtain ⟨r, t, t', ds, hr, hr', halike, hp, hp'⟩ := hx s s' alike
    rw [runFrom_bind, runFrom_bind, hr, hr']
    cases r with
    | error e => exact ⟨_, t, t', ds, rfl, rfl, halike, hp, hp'⟩
    | ok a =>
        obtain ⟨r₂, u, u', ds₂, hr₂, hr₂', halike₂, hp₂, hp₂'⟩ := hf a t t' halike
        exact ⟨r₂, u, u', ds ++ ds₂, hr₂, hr₂', halike₂, hp.trans hp₂, hp'.trans hp₂'⟩
  wrapped := by
    intro α step x hx s s' alike
    obtain ⟨r, t, t', ds, hr, hr', halike, hp, hp'⟩ := hx s s' alike
    rw [runFrom_within, runFrom_within, hr, hr']
    cases r with
    | error e => exact ⟨_, t, t', ds, rfl, rfl, halike, hp, hp'⟩
    | ok a => exact ⟨_, t, t', ds, rfl, rfl, halike, hp, hp'⟩

/-! ### Primitive steps -/

theorem allocate (suffix : String) (chain : List String) :
    RunsAlike (allocate suffix chain) := by
  refine of_result fun s s' alike => ?_
  have hsame := alike.symbols.allocate_eq suffix chain
  exact ⟨_, runFrom_allocate suffix chain s, by rw [runFrom_allocate, hsame]⟩

theorem takeName (name : String) : RunsAlike (takeName name) := fun s s' alike =>
  ⟨.ok (), { s with symbols := s.symbols.insert name },
    { s' with symbols := s'.symbols.insert name }, [], rfl, rfl,
    { alike with symbols := alike.symbols.insert name }, .of_eq rfl rfl, .of_eq rfl rfl⟩

theorem document (typeName fieldName text : String) :
    RunsAlike (document typeName fieldName text) := fun s s' alike =>
  ⟨.ok (), { s with comments := s.comments.insert (typeName, fieldName) text },
    { s' with comments := s'.comments.insert (typeName, fieldName) text }, [], rfl, rfl,
    { alike with comments := by rw [alike.comments] }, .of_eq rfl rfl, .of_eq rfl rfl⟩

theorem registerSensitive (l : Location) (target : String) :
    RunsAlike (registerSensitive l target) :=
  of_decision (.secret l.source.spelled target) (runFrom_registerSensitive l target)

theorem registerIgnored (l : Location) : RunsAlike (registerIgnored l) :=
  of_decision (.visit l) (runFrom_visit l)

theorem record (e : AuditEvent) (other : e.event ≠ .lateInitIgnore) : RunsAlike (record e) :=
  of_decision (.report e other) (runFrom_record e)

theorem emitType (l : Location) (name : String) (fields : List Field) :
    RunsAlike (emitType l name fields) := by
  intro s s' alike
  let report : AuditEvent :=
    { event := .typeGenerated, typeName := some name, sourcePath := some l.source.spelled,
      fieldCount := some fields.length }
  have other : report.event ≠ .lateInitIgnore := EventKind.noConfusion
  have hp (u : BuildState) :
      Performs [.report report other] u (runFrom (Build.emitType l name fields) u).2 :=
    .of_decision _ rfl rfl
  have htypes : s'.types ++ [⟨name, fields⟩] = s.types ++ [⟨name, fields⟩] := by rw [alike.types]
  refine ⟨.ok ⟨s.types.length, name⟩, _, _, _, runFrom_emitType l name fields s, ?_,
    .of_performs (hp s) (hp s') alike.symbols htypes alike.comments alike, hp s, hp s'⟩
  rw [runFrom_emitType, alike.types]

theorem siteOf (name : FieldName) (l : Location) (traits : Traits) (comment : Comment) :
    RunsAlike (siteOf name l traits comment) := by
  refine of_result fun s s' alike => ?_
  have hsite := Site.ofAttribute_congr alike.references name l traits comment
  refine ⟨.ok (.ofAttribute s.config name l traits comment), rfl, ?_⟩
  rw [← hsite]
  rfl

end RunsAlike

/-- What a build does runs alike. -/
theorem runsAlike : Steps fun _ x => RunsAlike x where
  toComposes := RunsAlike.composes
  allocates := RunsAlike.allocate
  takes := RunsAlike.takeName
  documents := RunsAlike.document
  registers := RunsAlike.registerSensitive
  ignores := RunsAlike.registerIgnored
  attaches e he := RunsAlike.record e (by rw [he]; exact EventKind.noConfusion)
  emits := RunsAlike.emitType
  sites := RunsAlike.siteOf
  kinds := by
    intro α f hf s s' alike
    have hrun : ∀ u : BuildState,
        runFrom (get >>= fun u => f u.config.kind) u = runFrom (f u.config.kind) u := fun _ => rfl
    rw [hrun, hrun, alike.kind]
    exact hf s.config.kind s s' alike

end Build

/-! ### Builds from two configurations -/

theorem alike_build (schema : Resource) {config config' : Config} {symbols symbols' : SymbolTable}
    (same : symbols.SameNames symbols') (kind : config'.kind = config.kind)
    (references : config'.references = config.references) :
    ∃ ds, (build schema config' symbols').outcome = (build schema config symbols).outcome ∧
      Alike (finalState schema config symbols) (finalState schema config' symbols') ∧
      Performs ds { symbols, config } (finalState schema config symbols) ∧
      Performs ds { symbols := symbols', config := config' }
        (finalState schema config' symbols') := by
  have alike : Alike { symbols, config } { symbols := symbols', config := config' } :=
    ⟨same, rfl, rfl, kind, references⟩
  obtain ⟨r, t, t', ds, hr, hr', halike, hp, hp'⟩ := runsAlike.root schema _ _ alike
  have houtcome : ∀ c b,
      (build schema c b).outcome = (runFrom (root schema) { symbols := b, config := c }).1.map
        fun refs => ⟨(finalState schema c b).types, (finalState schema c b).comments,
          refs.1.index, refs.2.index⟩ := fun _ _ => rfl
  have ht : finalState schema config symbols = t := congrArg Prod.snd hr
  have ht' : finalState schema config' symbols' = t' := congrArg Prod.snd hr'
  rw [houtcome, houtcome, hr, hr', ht, ht', halike.types, halike.comments]
  exact ⟨ds, rfl, halike, hp, hp'⟩

/-- The outcome of a build, be it what is generated or the error with all its steps, depends on the
configuration only through its kind and its references, and on the names only through which are
taken. -/
theorem outcome_eq_of_references_eq (schema : Resource) {config config' : Config}
    {symbols symbols' : SymbolTable} (same : symbols.SameNames symbols')
    (kind : config'.kind = config.kind) (references : config'.references = config.references) :
    (build schema config' symbols').outcome = (build schema config symbols).outcome := by
  obtain ⟨_, houtcome, -, -, -⟩ := alike_build schema same kind references
  exact houtcome

/-- A secret that refers to another resource, and in a list an attribute that the build rejects. -/
def brokenSchema : Resource :=
  .mk
    [("key_id", .mk { kind := .string, optional := true, sensitive := true } .unset),
      ("rule", .mk { kind := .list, optional := true }
        (.resource (.mk [("zone", .mk { kind := .invalid } .unset)])))]

theorem outcome_eq_of_references_eq_broken :
    ∃ config config' : Config,
      (config'.kind = config.kind ∧ config'.references = config.references ∧
        config'.references.size = 1) ∧
      (config'.name ≠ config.name ∧ config'.sensitive ≠ config.sensitive ∧
        (build brokenSchema config' .empty).events ≠ (build brokenSchema config .empty).events) ∧
      (build brokenSchema config .empty).outcome.toOption = none ∧
      (build brokenSchema config' .empty).outcome = (build brokenSchema config .empty).outcome := by
  let config : Config :=
    { name := "k", kind := "K",
      references := .ofList [(⟨[.field "key_id"]⟩, { typeName := "Key" })] }
  let config' : Config :=
    { config with
      name := "other"
      lateInitializer.ignoredFields := [⟨[.field "rule"]⟩]
      sensitive := .ofList [("key_id", "gone")] }
  exact ⟨config, config', ⟨rfl, rfl, rfl⟩, by decide +kernel, by decide +kernel,
    outcome_eq_of_references_eq brokenSchema (fun _ => rfl) rfl rfl⟩

/-! ### Building again -/

theorem event_lastEvent_ne (kind : String) (s : BuildState)
    (outcome : Except BuildError Generated) :
    (lastEvent kind s outcome).event ≠ .lateInitIgnore := by
  cases outcome <;> exact EventKind.noConfusion

theorem Alike.lastEvent_eq {s s' : BuildState} (h : Alike s s') (kind : String)
    (outcome : Except BuildError Generated) :
    lastEvent kind s' outcome = lastEvent kind s outcome := by
  cases outcome with
  | ok g => rw [lastEvent, lastEvent, h.types]
  | error e => rfl

/-- A build for the configuration that a first build left, whether that succeeded or failed, leaves
it as it is, has the same outcome and reports the same events except that it registers no ignored
path. -/
theorem build_again (schema : Resource) (config : Config) (symbols : SymbolTable) :
    let first := build schema config symbols
    let again := build schema first.config symbols
    again.config = first.config ∧ again.outcome = first.outcome ∧
      again.events = first.events.filter fun e => e.event ≠ .lateInitIgnore := by
  intro first again
  have same : symbols.SameNames symbols := fun _ => rfl
  obtain ⟨_, -, -, hany, -⟩ := alike_build schema same (rfl : config.kind = config.kind) rfl
  have hkind : first.config.kind = config.kind := by
    rw [show first.config = _ from hany.config, kind_configAfter]
  have hrefs : first.config.references = config.references := by
    rw [show first.config = _ from hany.config, references_configAfter]
  obtain ⟨ds, houtcome, halike, hfirst, hagain⟩ := alike_build schema same hkind hrefs
  have hconfig : first.config = configAfter ds config := hfirst.config
  have hsettled : Settled ds first.config := hconfig ▸ settled_configAfter ds config
  refine ⟨?_, houtcome, ?_⟩
  · calc again.config = configAfter ds first.config := hagain.config
      _ = first.config := by rw [hconfig, configAfter_configAfter]
  · have hlast : lastEvent first.config.kind (finalState schema first.config symbols)
        again.outcome = lastEvent config.kind (finalState schema config symbols) first.outcome := by
      rw [hkind, halike.lastEvent_eq, houtcome]
    have hother : [lastEvent config.kind (finalState schema config symbols) first.outcome].filter
        (fun e => e.event ≠ .lateInitIgnore) =
          [lastEvent config.kind (finalState schema config symbols) first.outcome] :=
      List.filter_eq_self.mpr fun e he => by
        rw [List.mem_singleton.mp he]
        exact decide_eq_true (event_lastEvent_ne _ _ _)
    calc again.events
        = eventsFrom ds first.config ++ [lastEvent config.kind _ first.outcome] := by
          rw [show again.events = _ from events_build schema first.config symbols, hagain.events,
            hlast]
          rfl
      _ = (eventsFrom ds config).filter (fun e => e.event ≠ .lateInitIgnore) ++
            [lastEvent config.kind _ first.outcome].filter fun e => e.event ≠ .lateInitIgnore := by
          rw [eventsFrom_of_settled hsettled hkind, hother]
      _ = first.events.filter fun e => e.event ≠ .lateInitIgnore := by
          rw [show first.events = _ from events_build schema config symbols, hfirst.events,
            ← List.filter_append]
          rfl

end ResourceTypes
