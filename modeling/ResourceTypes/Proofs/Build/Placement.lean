import ResourceTypes.Proofs.Build.Run

/-! # Placing variants

`Site.parameterFields` and `Site.observationFields` are the fields that a variant of an attribute
adds to the two types of its level, as a function of the site and the variant alone.
A success places a variant in one of three ways (`placeVariant_cases`).  `returns_placeVariants`
says that a successful placement adds exactly the fields of the variants, in their order, and
neither takes a name nor emits a type. -/

namespace ResourceTypes

namespace Site

/-- The fields that a variant adds to what can be set: its own and the companions of its
reference. -/
def parameterFields (s : Site) (v : Variant) : List Field :=
  if v.isObservation then []
  else match s.base v.type with
    | .error _ => []
    | .ok base =>
      s.tagged false base :: s.reference.toList.flatMap (companions (s.tagged false base))

/-- The fields that a variant adds to what is observed: its own, unless it is sensitive. -/
def observationFields (s : Site) (v : Variant) : List Field :=
  if v.isObservation && !s.sensitive then [s.tagged true (s.plain v.type)] else []

theorem parameterFields_value {s : Site} {v : Variant} (hs : s.sensitive = false)
    (ho : v.isObservation = false) :
    s.parameterFields v = s.tagged false (s.plain v.type) ::
      s.reference.toList.flatMap (companions (s.tagged false (s.plain v.type))) := by
  simp [parameterFields, base, hs, ho]

theorem parameterFields_observed {s : Site} {v : Variant} (ho : v.isObservation = true) :
    s.parameterFields v = [] := by
  simp [parameterFields, ho]

end Site

/-- The level with further fields in both types. -/
def Level.extend (l : Level) (parameters observation : List Field) : Level :=
  { l with
    parameterFields := l.parameterFields ++ parameters
    observationFields := l.observationFields ++ observation }

@[simp] theorem Level.extend_nil (l : Level) : l.extend [] [] = l := by
  simp [Level.extend]

@[simp] theorem Level.extend_extend (l : Level) (p o p' o' : List Field) :
    (l.extend p o).extend p' o' = l.extend (p ++ p') (o ++ o') := by
  simp [Level.extend]

theorem Level.addObservation_eq (l : Level) (f : Field) : l.addObservation f = l.extend [] [f] := by
  simp [Level.addObservation, Level.extend]

theorem Level.addParameters_eq (l : Level) (fields : List Field) :
    l.addParameters fields = l.extend fields [] := by
  simp [Level.addParameters, Level.extend]

namespace Build

variable {s t : BuildState}

theorem keepsTypes_documentCompanions {typeName : String} {fields : List Field} {a : Unit}
    (h : Returns (documentCompanions typeName fields) s a t) : KeepsTypes s t := by
  induction fields generalizing s with
  | nil =>
      obtain ⟨-, rfl⟩ := returns_pure.mp h
      exact .refl s
  | cons f rest ih =>
      obtain ⟨_, u, hd, hr⟩ := returns_bind.mp h
      exact (keepsTypes_document hd).trans (ih hr)

theorem keepsTypes_registerSettable {site : Site} {a : Unit}
    (h : Returns (registerSettable site) s a t) : KeepsTypes s t := by
  unfold registerSettable at h
  split at h
  · exact keepsTypes_registerSensitive h
  · obtain ⟨-, rfl⟩ := returns_pure.mp h
    exact .refl s

theorem returns_placeObservation {site : Site} {f : Field} {level level' : Level}
    (h : Returns (placeObservation site f level) s level' t) :
    level' = level.extend [] [f] ∧ KeepsTypes s t := by
  obtain ⟨_, u, hd, hp⟩ := returns_bind.mp h
  obtain ⟨rfl, rfl⟩ := returns_pure.mp hp
  exact ⟨level.addObservation_eq f, keepsTypes_document hd⟩

theorem returns_placeParameter {site : Site} {f : Field} {level level' : Level}
    (h : Returns (placeParameter site f level) s level' t) :
    level' = level.extend (f :: site.reference.toList.flatMap (companions f)) [] ∧
      KeepsTypes s t := by
  obtain ⟨_, u, hd, h⟩ := returns_bind.mp h
  have hs := keepsTypes_document hd
  cases hr : site.reference with
  | none =>
      simp only [hr] at h
      obtain ⟨rfl, rfl⟩ := returns_pure.mp h
      exact ⟨level.addParameters_eq [f], hs⟩
  | some r =>
      simp only [hr] at h
      obtain ⟨_, v, hc, h⟩ := returns_bind.mp h
      obtain ⟨_, w, hrec, h⟩ := returns_bind.mp h
      obtain ⟨rfl, rfl⟩ := returns_pure.mp h
      refine ⟨?_, (hs.trans (keepsTypes_documentCompanions hc)).trans (keepsTypes_record hrec)⟩
      simp [level.addParameters_eq]

/-- A placed variant is a secret that is left out, an observed field, or a field that can be set
with what belongs to it. -/
theorem placeVariant_cases {site : Site} {v : Variant} {level level' : Level}
    (h : Returns (placeVariant site v level) s level' t) :
    (v.isObservation = true ∧ site.sensitive = true ∧ level' = level ∧
      Returns (registerSensitive site.location (observationTarget site.location.target)) s () t) ∨
    (v.isObservation = true ∧ site.sensitive = false ∧
      Returns (placeObservation site (site.tagged true (site.plain v.type)) level) s level' t) ∨
    (v.isObservation = false ∧ ∃ base u, site.base v.type = .ok base ∧
      Returns (registerSettable site) s () u ∧
      Returns (placeParameter site (site.tagged false base) level) u level' t) := by
  unfold placeVariant at h
  cases ho : v.isObservation with
  | true =>
      rw [ho, if_pos rfl] at h
      cases hs : site.sensitive with
      | true =>
          rw [hs, if_pos rfl] at h
          obtain ⟨_, u, hreg, h⟩ := returns_bind.mp h
          obtain ⟨rfl, rfl⟩ := returns_pure.mp h
          exact .inl ⟨rfl, rfl, rfl, hreg⟩
      | false =>
          rw [hs, if_neg Bool.false_ne_true] at h
          exact .inr (.inl ⟨rfl, rfl, h⟩)
  | false =>
      rw [ho, if_neg Bool.false_ne_true] at h
      obtain ⟨base, u, he, h⟩ := returns_bind.mp h
      obtain ⟨hb, rfl⟩ := returns_ofExcept.mp he
      obtain ⟨_, w, hreg, h⟩ := returns_bind.mp h
      exact .inr (.inr ⟨rfl, base, w, hb, hreg, h⟩)

theorem returns_placeVariant {site : Site} {v : Variant} {level level' : Level}
    (h : Returns (placeVariant site v level) s level' t) :
    level' = level.extend (site.parameterFields v) (site.observationFields v) ∧
      KeepsTypes s t := by
  unfold Site.parameterFields Site.observationFields
  obtain ⟨ho, hs, rfl, hreg⟩ | ⟨ho, hs, hplaced⟩ | ⟨ho, base, u, hb, hreg, hplaced⟩ :=
    placeVariant_cases h
  · exact ⟨by simp [ho, hs], keepsTypes_registerSensitive hreg⟩
  · simpa [ho, hs] using returns_placeObservation hplaced
  · obtain ⟨hl, hk⟩ := returns_placeParameter hplaced
    exact ⟨by simpa [ho, hb] using hl, (keepsTypes_registerSettable hreg).trans hk⟩

/-- Placed variants add their fields in order. -/
theorem returns_placeVariants {site : Site} {variants : List Variant} {level level' : Level}
    (h : Returns (placeVariants site variants level) s level' t) :
    level' = level.extend (variants.flatMap site.parameterFields)
        (variants.flatMap site.observationFields) ∧
      KeepsTypes s t := by
  induction variants generalizing level s with
  | nil =>
      obtain ⟨rfl, rfl⟩ := returns_pure.mp h
      exact ⟨by simp, .refl s⟩
  | cons v rest ih =>
      obtain ⟨placed, u, hv, hr⟩ := returns_bind.mp h
      obtain ⟨rfl, hk⟩ := returns_placeVariant hv
      obtain ⟨rfl, hk'⟩ := ih hr
      exact ⟨by simp, hk.trans hk'⟩

end Build

end ResourceTypes
