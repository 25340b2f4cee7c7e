import ResourceTypes.Proofs.Build.Effects
import ResourceTypes.Proofs.OrderedMap

/-! # What a build registers

`Registers entries s t` says that between two states the entries are put into the registry of
sensitive fields, in their order, and that the references stay as they are.  Entries of
consecutive steps are appended (`Registers.trans`).

Only the placing of a sensitive variant registers an entry (`Site.entries`,
`registers_placeVariants`); every other step registers none.  As no step changes a reference
(`Walk.references`), the site of an attribute is the one for the configuration with which the
build starts (`Site.ofAttribute_congr`). -/

namespace ResourceTypes

open Build

/-- Between the states the entries are registered, and the references are kept. -/
structure Registers (entries : List (String × String)) (s t : BuildState) : Prop where
  sensitive : t.config.sensitive = s.config.sensitive.insertAll entries
  references : t.config.references = s.config.references

namespace Registers

variable {entries entries' : List (String × String)} {s t u : BuildState}

theorem of_config_eq (h : t.config = s.config) : Registers [] s t :=
  ⟨by rw [h, OrderedMap.insertAll_nil], by rw [h]⟩

theorem refl (s : BuildState) : Registers [] s s := of_config_eq rfl

theorem trans (h : Registers entries s t) (h' : Registers entries' t u) :
    Registers (entries ++ entries') s u :=
  ⟨by rw [h'.sensitive, h.sensitive, OrderedMap.insertAll_append],
    h'.references.trans h.references⟩

end Registers

/-! ### Entries of a site -/

namespace Site

/-- The site of an attribute depends on the references of a configuration alone. -/
theorem ofAttribute_congr {c c' : Config} (h : c.references = c'.references) (name : FieldName)
    (l : Location) (traits : Traits) (comment : Comment) :
    ofAttribute c name l traits comment = ofAttribute c' name l traits comment := by
  simp only [ofAttribute, Config.referenceFor?, h]

/-- Where the secret of a variant is found. -/
def secretTarget (s : Site) (v : Variant) : String :=
  if v.isObservation then observationTarget s.location.target
  else parameterTarget s.location.target

/-- What placing a variant registers. -/
def entries (s : Site) (v : Variant) : List (String × String) :=
  if s.sensitive then [(s.location.source.spelled, s.secretTarget v)] else []

end Site

namespace Build

variable {s t : BuildState}

/-! ### Steps that register nothing -/

theorem registersNone : StateOrder (Registers []) where
  refl := .refl
  trans h h' := h.trans h'

theorem registers_document (typeName fieldName text : String) :
    Moves (Registers []) (document typeName fieldName text) := fun _ => .of_config_eq rfl

theorem registers_registerIgnored {l : Location} {a : Unit}
    (h : Returns (registerIgnored l) s a t) : Registers [] s t := by
  rw [Returns, runFrom_registerIgnored, Prod.mk.injEq] at h
  obtain ⟨-, rfl⟩ := h
  split
  · exact ⟨rfl, rfl⟩
  · exact .refl s

theorem registers_openLevel {l : Location} {level : Level} (h : Returns (openLevel l) s level t) :
    Registers [] s t :=
  (registersNone.moves_openLevel (fun _ _ => .of_config_eq rfl) l).of_returns h

theorem registers_closeLevel {l : Location} {level : Level} {r : TypeRef × TypeRef}
    (h : Returns (closeLevel l level) s r t) : Registers [] s t :=
  (registersNone.composes.closeLevel (fun _ _ _ _ => .of_config_eq rfl) l level).of_returns h

theorem registers_placeObservation {site : Site} {f : Field} {level level' : Level}
    (h : Returns (placeObservation site f level) s level' t) : Registers [] s t :=
  (registersNone.composes.placeObservation registers_document site f level).of_returns h

theorem registers_placeParameter {site : Site} {f : Field} {level level' : Level}
    (h : Returns (placeParameter site f level) s level' t) : Registers [] s t :=
  (registersNone.composes.placeParameter registers_document (fun _ _ _ => .of_config_eq rfl) site f
    level).of_returns h

/-! ### Placing variants -/

theorem registers_registerSensitive {l : Location} {target : String} {a : Unit}
    (h : Returns (registerSensitive l target) s a t) :
    Registers [(l.source.spelled, target)] s t := by
  rw [Returns, runFrom_registerSensitive, Prod.mk.injEq] at h
  obtain ⟨-, rfl⟩ := h
  exact ⟨rfl, rfl⟩

theorem registers_placeVariant {site : Site} {v : Variant} {level level' : Level}
    (h : Returns (placeVariant site v level) s level' t) : Registers (site.entries v) s t := by
  unfold Site.entries Site.secretTarget
  obtain ⟨ho, hs, -, hreg⟩ | ⟨ho, hs, hplaced⟩ | ⟨ho, base, u, -, hreg, hplaced⟩ :=
    placeVariant_cases h
  · rw [hs, ho, if_pos rfl, if_pos rfl]
    exact registers_registerSensitive hreg
  · rw [hs, if_neg Bool.false_ne_true]
    exact registers_placeObservation hplaced
  · unfold registerSettable at hreg
    rw [ho, if_neg Bool.false_ne_true]
    cases hs : site.sensitive with
    | true =>
        rw [hs, if_pos rfl] at hreg
        exact (registers_registerSensitive hreg).trans (registers_placeParameter hplaced)
    | false =>
        rw [hs, if_neg Bool.false_ne_true] at hreg
        obtain ⟨-, rfl⟩ := returns_pure.mp hreg
        exact registers_placeParameter hplaced

/-- Placed variants register their entries in order. -/
theorem registers_placeVariants {site : Site} {variants : List Variant} {level level' : Level}
    (h : Returns (placeVariants site variants level) s level' t) :
    Registers (variants.flatMap site.entries) s t := by
  induction variants generalizing level s with
  | nil =>
      obtain ⟨-, rfl⟩ := returns_pure.mp h
      exact .refl s
  | cons v rest ih =>
      obtain ⟨placed, u, hv, hr⟩ := returns_bind.mp h
      exact (registers_placeVariant hv).trans (ih hr)

end Build

/-- No reference is changed. -/
theorem Walk.references {attributes : List (String × Attribute)} {l : Location}
    {level level' : Level} {s t : BuildState} {levels : Forest BuiltLevel}
    (h : Walk attributes l level s levels level' t) :
    t.config.references = s.config.references := by
  induction h with
  | nil => rfl
  | flat _ _ registered placed _ ih =>
      rw [ih, (registers_placeVariants placed).references,
        (registers_registerIgnored registered).references]
  | nested _ _ registered opens _ closes placed _ ihb iho =>
      rw [iho, (registers_placeVariants placed).references,
        (registers_closeLevel closes).references, ihb, (registers_openLevel opens).references,
        (registers_registerIgnored registered).references]

end ResourceTypes
