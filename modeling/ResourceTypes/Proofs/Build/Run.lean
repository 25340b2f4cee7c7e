import Mathlib.Tactic.Common
import ResourceTypes.Build.Basic
import ResourceTypes.Proofs.SymbolTable.Candidates

/-! # Runs of a build

`runFrom x s` is what a computation of a build gives from the state `s`, with the state that it
leaves; `Returns x s a t` says that it succeeds.  A success of a sequence is a success of its
parts (`returns_bind`), and wrapping errors changes no success (`returns_within`).

Each step of a build that a proof meets has a law here that says what its success does:
`returns_openLevel` and `returns_closeLevel` for the two ends of a level, `returns_siteOf` for
the site of an attribute, and `KeepsTypes` for the steps that take no name and emit no type. -/

namespace ResourceTypes

/-- No name is taken and no type is emitted between the states. -/
structure KeepsTypes (s t : BuildState) : Prop where
  symbols : t.symbols = s.symbols
  types : t.types = s.types

theorem KeepsTypes.refl (s : BuildState) : KeepsTypes s s := ⟨rfl, rfl⟩

theorem KeepsTypes.trans {s t u : BuildState} (h₁ : KeepsTypes s t) (h₂ : KeepsTypes t u) :
    KeepsTypes s u :=
  ⟨h₂.symbols.trans h₁.symbols, h₂.types.trans h₁.types⟩

/-- The site of an attribute for a configuration. -/
def Site.ofAttribute (c : Config) (name : FieldName) (l : Location) (traits : Traits)
    (comment : Comment) : Site :=
  let reference := c.referenceFor? l.source
  ⟨name, l, comment, reference, traits.optional || reference.isSome, traits.sensitive⟩

/-- The names of the two types of a level. -/
def Level.typeNames (l : Level) : TypeNames := ⟨l.parameters, l.observation⟩

namespace Build

/-- What a computation gives from a state, with the state that it leaves. -/
def runFrom {α : Type} (x : Build α) (s : BuildState) : Except BuildError α × BuildState :=
  x.run.run s

/-- The computation succeeds with the value `a` and leaves the state `t`. -/
def Returns {α : Type} (x : Build α) (s : BuildState) (a : α) (t : BuildState) : Prop :=
  runFrom x s = (.ok a, t)

variable {α β : Type} {s t : BuildState}

/-! ### Sequences -/

theorem runFrom_bind (x : Build α) (f : α → Build β) (s : BuildState) :
    runFrom (x >>= f) s =
      match runFrom x s with
      | (.ok a, u) => runFrom (f a) u
      | (.error e, u) => (.error e, u) := by
  unfold runFrom
  simp only [ExceptT.run_bind, StateT.run_bind]
  show (match x.run.run s with | (r, u) => _) = _
  rcases x.run.run s with ⟨a | a, u⟩ <;> rfl

theorem runFrom_within (step : BuildStep) (x : Build α) (s : BuildState) :
    runFrom (within step x) s =
      match runFrom x s with
      | (.ok a, u) => (.ok a, u)
      | (.error e, u) => (.error (.context step e), u) := by
  unfold runFrom within
  simp only [ExceptT.run_mk, StateT.run_bind]
  show (match x.run.run s with | (r, u) => _) = _
  rcases x.run.run s with ⟨a | a, u⟩ <;> rfl

@[simp] theorem returns_pure {a b : α} : Returns (pure a) s b t ↔ a = b ∧ s = t := by
  show ((Except.ok a, s) : Except BuildError α × BuildState) = _ ↔ _
  simp [Prod.ext_iff]

@[simp] theorem not_returns_throw {e : BuildError} {a : α} : ¬ Returns (throw e) s a t := by
  intro h
  have h' : ((Except.error e, s) : Except BuildError α × BuildState) = (.ok a, t) := h
  simp at h'

theorem returns_bind {x : Build α} {f : α → Build β} {b : β} :
    Returns (x >>= f) s b t ↔ ∃ a u, Returns x s a u ∧ Returns (f a) u b t := by
  unfold Returns
  rw [runFrom_bind]
  rcases runFrom x s with ⟨e | a, u⟩ <;> simp

@[simp] theorem returns_within {step : BuildStep} {x : Build α} {a : α} :
    Returns (within step x) s a t ↔ Returns x s a t := by
  unfold Returns
  rw [runFrom_within]
  rcases runFrom x s with ⟨e | a, u⟩ <;> simp

@[simp] theorem returns_modify {f : BuildState → BuildState} {a : PUnit} :
    Returns (modify f) s a t ↔ f s = t := by
  show ((Except.ok (), f s) : Except BuildError PUnit × BuildState) = _ ↔ _
  simp [Prod.ext_iff]

@[simp] theorem returns_get {a : BuildState} : Returns get s a t ↔ s = a ∧ s = t := by
  show ((Except.ok s, s) : Except BuildError BuildState × BuildState) = _ ↔ _
  simp [Prod.ext_iff]

@[simp] theorem returns_ofExcept {r : Except BuildError α} {a : α} :
    Returns (ofExcept r) s a t ↔ r = .ok a ∧ s = t := by
  cases r <;> simp [ofExcept]

/-! ### Steps that emit nothing -/

theorem keepsTypes_record {e : AuditEvent} {a : Unit} (h : Returns (record e) s a t) :
    KeepsTypes s t := by
  rw [record, returns_modify] at h
  exact h ▸ ⟨rfl, rfl⟩

theorem keepsTypes_document {typeName fieldName text : String} {a : Unit}
    (h : Returns (document typeName fieldName text) s a t) : KeepsTypes s t := by
  rw [document, returns_modify] at h
  exact h ▸ ⟨rfl, rfl⟩

theorem keepsTypes_configure {change : Config → Config} {a : Unit}
    (h : Returns (configure change) s a t) : KeepsTypes s t := by
  rw [configure, returns_modify] at h
  exact h ▸ ⟨rfl, rfl⟩

theorem keepsTypes_registerSensitive {l : Location} {target : String} {a : Unit}
    (h : Returns (registerSensitive l target) s a t) : KeepsTypes s t := by
  obtain ⟨_, u, hc, hr⟩ := returns_bind.mp h
  exact (keepsTypes_configure hc).trans (keepsTypes_record hr)

theorem keepsTypes_registerIgnored {l : Location} {a : Unit}
    (h : Returns (registerIgnored l) s a t) : KeepsTypes s t := by
  obtain ⟨u, v, hg, h⟩ := returns_bind.mp h
  obtain ⟨rfl, rfl⟩ := returns_get.mp hg
  dsimp only at h
  split at h
  · obtain ⟨_, w, hc, hr⟩ := returns_bind.mp h
    exact (keepsTypes_configure hc).trans (keepsTypes_record hr)
  · obtain ⟨-, rfl⟩ := returns_pure.mp h
    exact .refl s

theorem returns_commentOf {l : Location} {description : String} {c : Comment} :
    Returns (commentOf l description) s c t ↔ Comment.parse description = .ok c ∧ s = t := by
  unfold commentOf
  cases Comment.parse description <;> simp

theorem returns_siteOf {name : FieldName} {l : Location} {traits : Traits} {comment : Comment}
    {site : Site} :
    Returns (siteOf name l traits comment) s site t ↔
      site = Site.ofAttribute s.config name l traits comment ∧ s = t := by
  simp only [siteOf, returns_bind, returns_get, returns_pure]
  constructor
  · rintro ⟨_, _, ⟨rfl, rfl⟩, rfl, rfl⟩
    exact ⟨rfl, rfl⟩
  · rintro ⟨rfl, rfl⟩
    exact ⟨s, s, ⟨rfl, rfl⟩, rfl, rfl⟩

/-! ### The ends of a level -/

theorem runFrom_allocate (suffix : String) (chain : List String) (s : BuildState) :
    runFrom (allocate suffix chain) s =
      ((s.symbols.allocate suffix chain).mapError .ofAllocation, s) := by
  have hget : runFrom get s = (.ok s, s) := rfl
  rw [allocate, runFrom_bind, hget]
  dsimp only
  cases s.symbols.allocate suffix chain <;> rfl

theorem returns_allocate {suffix name : String} {chain : List String} :
    Returns (allocate suffix chain) s name t ↔
      s.symbols.allocate suffix chain = .ok name ∧ s = t := by
  rw [Returns, runFrom_allocate]
  cases s.symbols.allocate suffix chain <;> simp [Except.mapError]

/-- Opening a level takes the two names of its chain. -/
theorem returns_openLevel {l : Location} {level : Level} :
    Returns (openLevel l) s level t ↔
      ∃ n u, s.symbols.nameLevel l.names = .ok (n, u) ∧
        level = { parameters := n.parameters, observation := n.observation } ∧
        t = { s with symbols := u } := by
  simp only [openLevel, returns_bind, returns_within, returns_allocate, takeName, returns_modify,
    returns_pure]
  constructor
  · rintro ⟨p, _, ⟨hp, rfl⟩, o, _, ⟨ho, rfl⟩, -, _, rfl, -, _, rfl, rfl, rfl⟩
    exact ⟨⟨p, o⟩, _, SymbolTable.nameLevel_ok.mpr ⟨hp, ho, rfl⟩, rfl, rfl⟩
  · rintro ⟨⟨p, o⟩, u, h, rfl, rfl⟩
    obtain ⟨hp, ho, rfl⟩ := SymbolTable.nameLevel_ok.mp h
    exact ⟨p, s, ⟨hp, rfl⟩, o, s, ⟨ho, rfl⟩, (), _, rfl, (), _, rfl, rfl, rfl⟩

theorem nameLevels_of_openLevel {l : Location} {opened filled : Level} {u : BuildState}
    {chains : List (List String)} {names : List TypeNames} {v : SymbolTable}
    (opens : Returns (openLevel l) s opened u) (keeps : filled.typeNames = opened.typeNames)
    (below : u.symbols.nameLevels chains = .ok (names, v)) :
    s.symbols.nameLevels (l.names :: chains) = .ok (filled.typeNames :: names, v) := by
  obtain ⟨n, w, hn, rfl, rfl⟩ := returns_openLevel.mp opens
  exact SymbolTable.nameLevels_cons.mpr ⟨n, w, names, hn, below, by rw [keeps]; rfl⟩

theorem returns_emitType {l : Location} {name : String} {fields : List Field} {r : TypeRef}
    (h : Returns (emitType l name fields) s r t) :
    r = ⟨s.types.length, name⟩ ∧ t.symbols = s.symbols ∧ t.types = s.types ++ [⟨name, fields⟩] := by
  simp only [emitType, emit, record, returns_bind, returns_modify, returns_get, returns_pure] at h
  obtain ⟨-, _, rfl, _, _, ⟨rfl, rfl⟩, -, _, rfl, rfl, rfl⟩ := h
  exact ⟨rfl, rfl, rfl⟩

/-- Closing a level emits its two types. -/
theorem returns_closeLevel {l : Location} {level : Level} {r : TypeRef × TypeRef}
    (h : Returns (closeLevel l level) s r t) :
    r = (⟨s.types.length, level.parameters⟩, ⟨s.types.length + 1, level.observation⟩) ∧
      t.symbols = s.symbols ∧
      t.types = s.types ++ [⟨level.parameters, level.parameterFields⟩,
        ⟨level.observation, level.observationFields⟩] := by
  simp only [closeLevel, returns_bind, returns_pure] at h
  obtain ⟨p, u, hp, o, v, ho, rfl, rfl⟩ := h
  obtain ⟨rfl, hps, hpt⟩ := returns_emitType hp
  obtain ⟨rfl, hos, hot⟩ := returns_emitType ho
  refine ⟨by rw [hpt, List.length_append]; rfl, hos.trans hps, ?_⟩
  rw [hot, hpt, List.append_assoc]
  rfl

end Build

end ResourceTypes
