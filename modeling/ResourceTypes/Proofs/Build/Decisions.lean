import ResourceTypes.Proofs.Build.Effects
import ResourceTypes.Proofs.OrderedSet

/-! # The decisions of a build

A build writes to its configuration and to its events by three kinds of decision: it registers a
secret, it visits an attribute, which may register a canonical path, and it reports something
else.  What a visit does depends on the configuration, so that a list of decisions says what a run
does from any configuration: `configAfter` is the configuration that it leaves and `eventsFrom` are
the events that it reports.

In closed form, decisions put the targets of their secrets into one registry and the ignored paths
among those that they visit into the other (`configAfter_eq`).  They are settled for a configuration
that has all these paths already: then no visit registers anything.  After its own decisions every
configuration is settled (`settled_configAfter`). -/

namespace ResourceTypes

open Build

/-- What a build decides to write. -/
inductive Decision where
  /-- A secret is registered with its target. -/
  | secret (source target : String)
  /-- An attribute is visited. -/
  | visit (l : Location)
  /-- Anything but a registered path is reported. -/
  | report (e : AuditEvent) (other : e.event ≠ .lateInitIgnore)

/-- Visiting an attribute registers its canonical path. -/
def Config.registers (c : Config) (l : Location) : Bool :=
  c.lateInitializer.ignoresSource l.source && !c.lateInitializer.ignoresCanonical l.canonical

namespace Decision

/-- The configuration after a decision. -/
def config (c : Config) : Decision → Config
  | secret source target => c.addSensitive source target
  | visit l => if c.registers l then c.addCanonical l.canonical else c
  | report _ _ => c

/-- The events that a decision reports. -/
def events (c : Config) : Decision → List AuditEvent
  | secret source target =>
    [{ event := .sensitiveField, kind := c.kind, sourcePath := some source,
       targetPath := some target }]
  | visit l =>
    if c.registers l then
      [{ event := .lateInitIgnore, kind := c.kind, sourcePath := some l.source.spelled,
         targetPath := some l.canonical.spelled }]
    else []
  | report e _ => [{ e with kind := c.kind }]

/-- The targets of the secrets by source path. -/
def secrets : List Decision → List (String × String)
  | [] => []
  | secret source target :: ds => (source, target) :: secrets ds
  | visit _ :: ds | report _ _ :: ds => secrets ds

/-- The locations that are visited. -/
def visited : List Decision → List Location
  | [] => []
  | visit l :: ds => l :: visited ds
  | secret _ _ :: ds | report _ _ :: ds => visited ds

/-- The canonical paths of the visited locations that are ignored. -/
def paths (late : LateInitializer) (ds : List Decision) : List CanonicalPath :=
  ((visited ds).filter fun l => late.ignoresSource l.source).map Location.canonical

end Decision

/-- The configuration after all decisions. -/
def configAfter : List Decision → Config → Config
  | [], c => c
  | d :: ds, c => configAfter ds (d.config c)

/-- The events that the decisions report. -/
def eventsFrom : List Decision → Config → List AuditEvent
  | [], _ => []
  | d :: ds, c => d.events c ++ eventsFrom ds (d.config c)

@[simp] theorem configAfter_nil (c : Config) : configAfter [] c = c := rfl

@[simp] theorem eventsFrom_nil (c : Config) : eventsFrom [] c = [] := rfl

theorem configAfter_append (ds ds' : List Decision) (c : Config) :
    configAfter (ds ++ ds') c = configAfter ds' (configAfter ds c) := by
  induction ds generalizing c with
  | nil => rfl
  | cons d ds ih => exact ih (d.config c)

theorem eventsFrom_append (ds ds' : List Decision) (c : Config) :
    eventsFrom (ds ++ ds') c = eventsFrom ds c ++ eventsFrom ds' (configAfter ds c) := by
  induction ds generalizing c with
  | nil => rfl
  | cons d ds ih =>
      rw [List.cons_append, eventsFrom, ih, eventsFrom, configAfter, List.append_assoc]

/-! ### The configuration after decisions -/

/-- The configuration with further targets of secrets and further canonical paths. -/
def Config.extend (c : Config) (targets : List (String × String)) (paths : List CanonicalPath) :
    Config :=
  { c with
    sensitive := c.sensitive.insertAll targets
    lateInitializer.ignoredCanonical := c.lateInitializer.ignoredCanonical.addAll paths }

theorem Decision.config_visit (c : Config) (l : Location) :
    (Decision.visit l).config c =
      c.extend [] (if c.lateInitializer.ignoresSource l.source then [l.canonical] else []) := by
  rw [config, Config.registers]
  cases c.lateInitializer.ignoresSource l.source with
  | false => rfl
  | true =>
      cases hc : c.lateInitializer.ignoresCanonical l.canonical with
      | false => rfl
      | true =>
          have hadd : c.lateInitializer.ignoredCanonical.addAll [l.canonical] =
              c.lateInitializer.ignoredCanonical := OrderedSet.add_of_contains hc
          simp only [Config.extend, if_true, hadd]
          rfl

theorem runFrom_visit (l : Location) (s : BuildState) :
    runFrom (registerIgnored l) s =
      (.ok (),
        { s with
          config := (Decision.visit l).config s.config
          events := s.events ++ (Decision.visit l).events s.config }) := by
  rw [runFrom_registerIgnored]
  show (_, if s.config.registers l then _ else s) = _
  rw [Decision.config, Decision.events]
  cases s.config.registers l with
  | true => rfl
  | false => simp only [Bool.false_eq_true, if_false, List.append_nil]

/-- Decisions put in the targets of their secrets and the ignored paths that they visit. -/
theorem configAfter_eq (ds : List Decision) (c : Config) :
    configAfter ds c = c.extend (Decision.secrets ds) (Decision.paths c.lateInitializer ds) := by
  induction ds generalizing c with
  | nil => rfl
  | cons d ds ih =>
      rw [configAfter, ih]
      cases d with
      | secret source target => rfl
      | report e other => rfl
      | visit l =>
          have hsame : Decision.paths ((Decision.visit l).config c).lateInitializer ds =
              Decision.paths c.lateInitializer ds := by
            rw [Decision.config_visit]
            rfl
          rw [hsame, Decision.config_visit]
          simp only [Decision.secrets, Decision.paths, Decision.visited, List.filter_cons]
          cases c.lateInitializer.ignoresSource l.source <;> rfl

section frame

variable (ds : List Decision) (c : Config)

@[simp] theorem kind_configAfter : (configAfter ds c).kind = c.kind := by
  rw [configAfter_eq]
  rfl

@[simp] theorem references_configAfter : (configAfter ds c).references = c.references := by
  rw [configAfter_eq]
  rfl

@[simp] theorem ignoresSource_configAfter (p : FieldPath) :
    (configAfter ds c).lateInitializer.ignoresSource p = c.lateInitializer.ignoresSource p := by
  rw [configAfter_eq]
  rfl

theorem ignoresCanonical_configAfter (p : CanonicalPath) :
    (configAfter ds c).lateInitializer.ignoresCanonical p = true ↔
      c.lateInitializer.ignoresCanonical p = true ∨ p ∈ Decision.paths c.lateInitializer ds := by
  rw [configAfter_eq]
  exact OrderedSet.contains_addAll _ _ p

end frame

theorem configAfter_configAfter (ds : List Decision) (c : Config) :
    configAfter ds (configAfter ds c) = configAfter ds c := by
  have hpaths : Decision.paths (configAfter ds c).lateInitializer ds =
      Decision.paths c.lateInitializer ds := by
    rw [configAfter_eq]
    rfl
  rw [configAfter_eq ds (configAfter ds c), hpaths, configAfter_eq]
  simp only [Config.extend, OrderedMap.insertAll_insertAll, OrderedSet.addAll_addAll]

/-! ### Settled configurations -/

/-- No visit among the decisions registers anything. -/
def Settled (ds : List Decision) (c : Config) : Prop :=
  ∀ l ∈ Decision.visited ds, c.registers l = false

theorem Config.registers_eq_false_iff {c : Config} {l : Location} :
    c.registers l = false ↔
      (c.lateInitializer.ignoresSource l.source = true →
        c.lateInitializer.ignoresCanonical l.canonical = true) := by
  rw [registers]
  cases c.lateInitializer.ignoresSource l.source <;>
    cases c.lateInitializer.ignoresCanonical l.canonical <;> simp

/-- After its own decisions a configuration is settled. -/
theorem settled_configAfter (ds : List Decision) (c : Config) : Settled ds (configAfter ds c) := by
  intro l hl
  rw [Config.registers_eq_false_iff, ignoresSource_configAfter, ignoresCanonical_configAfter]
  intro hs
  exact .inr (List.mem_map_of_mem (List.mem_filter.mpr ⟨hl, hs⟩))

/-- A configuration that is settled stays so. -/
theorem Settled.configAfter {ds : List Decision} {c : Config} (h : Settled ds c)
    (others : List Decision) : Settled ds (configAfter others c) := by
  intro l hl
  have hc := Config.registers_eq_false_iff.mp (h l hl)
  rw [Config.registers_eq_false_iff, ignoresSource_configAfter, ignoresCanonical_configAfter]
  exact fun hs => .inl (hc hs)

/-- From a settled configuration the events are those from any other, without the paths that are
registered there. -/
theorem eventsFrom_of_settled {ds : List Decision} {c c' : Config} (h : Settled ds c')
    (kind : c'.kind = c.kind) :
    eventsFrom ds c' = (eventsFrom ds c).filter fun e => e.event ≠ .lateInitIgnore := by
  induction ds generalizing c c' with
  | nil => rfl
  | cons d ds ih =>
      have hrest : Settled ds c' := fun l hl => h l (by cases d <;> simp [Decision.visited, hl])
      have hnext : eventsFrom ds (d.config c') = (eventsFrom ds (d.config c)).filter _ :=
        ih (hrest.configAfter [d]) (by
          rw [← kind_configAfter [d] c', ← kind_configAfter [d] c] at kind
          exact kind)
      rw [eventsFrom, eventsFrom, List.filter_append, hnext]
      congr 1
      cases d with
      | secret source target => simp [Decision.events, kind]
      | report e other => simp [Decision.events, kind, other]
      | visit l =>
          have hl : c'.registers l = false := h l List.mem_cons_self
          rw [Decision.events, Decision.events, hl]
          cases c.registers l <;> rfl

/-! ### Performing decisions -/

/-- Between the states the decisions are made. -/
structure Performs (ds : List Decision) (s t : BuildState) : Prop where
  config : t.config = configAfter ds s.config
  events : t.events = s.events ++ eventsFrom ds s.config

namespace Performs

variable {ds ds' : List Decision} {s t u : BuildState}

theorem of_eq (config : t.config = s.config) (events : t.events = s.events) : Performs [] s t :=
  ⟨config, by rw [events, eventsFrom_nil, List.append_nil]⟩

theorem refl (s : BuildState) : Performs [] s s := of_eq rfl rfl

theorem trans (h : Performs ds s t) (h' : Performs ds' t u) : Performs (ds ++ ds') s u :=
  ⟨by rw [h'.config, h.config, configAfter_append],
    by rw [h'.events, h.events, h.config, eventsFrom_append, List.append_assoc]⟩

theorem of_decision (d : Decision) (config : t.config = d.config s.config)
    (events : t.events = s.events ++ d.events s.config) : Performs [d] s t :=
  ⟨config, by rw [events, eventsFrom, eventsFrom_nil, List.append_nil]⟩

end Performs

end ResourceTypes
