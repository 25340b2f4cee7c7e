import ResourceTypes.Proofs.Build.Resolution

/-! # Outcomes of a build's steps

`Settles x P Q` says of a computation both ways in which it can end: a value that it gives has
`P`, and the root cause of an error that it raises has `Q`, from whatever state it starts.  The
two are carried through a sequence together (`settles_bind`), and wrapping errors changes neither
(`settles_within`).  A computation that cannot fail settles with no cause at all.

The steps of a build that can fail on their own settle here: names may be exhausted
(`settles_openLevel`), a description malformed (`settles_commentOf`), and a sensitive value no
text (`settles_placeVariants`). -/

namespace ResourceTypes

open SymbolTable

/-- No free name was left. -/
def BuildError.NamesExhausted (e : BuildError) : Prop := ∃ name, e = .nameExhausted name

/-- The variant can be set and is sensitive, but has no reference to a secret in its place. -/
def Site.Exposes (s : Site) (v : Variant) : Prop :=
  s.sensitive = true ∧ v.isObservation = false ∧ v.type.isStringLike = false

namespace Build

variable {α β : Type}

/-- A value of the computation has `P`, and the root cause of an error has `Q`. -/
def Settles (x : Build α) (P : α → Prop) (Q : BuildError → Prop) : Prop :=
  ∀ s, match (runFrom x s).1 with
    | .ok a => P a
    | .error e => Q e.rootCause

/-! ### Sequences -/

section sequences

variable {x : Build α} {P P' : α → Prop} {Q Q' : BuildError → Prop}

theorem settles_pure {a : α} (h : P a) : Settles (pure a) P Q := fun _ => h

theorem settles_throw {e : BuildError} (h : Q e.rootCause) : Settles (throw e : Build α) P Q :=
  fun _ => h

theorem settles_bind {f : α → Build β} {R : β → Prop} (hx : Settles x P Q)
    (hf : ∀ a, P a → Settles (f a) R Q) : Settles (x >>= f) R Q := by
  intro s
  have hs := hx s
  rw [runFrom_bind]
  rcases hr : runFrom x s with ⟨e | a, u⟩ <;> rw [hr] at hs
  · exact hs
  · exact hf a hs u

theorem settles_within {step : BuildStep} (hx : Settles x P Q) : Settles (within step x) P Q := by
  intro s
  have hs := hx s
  rw [runFrom_within]
  rcases hr : runFrom x s with ⟨e | a, u⟩ <;> rw [hr] at hs
  · exact hs
  · exact hs

theorem Settles.mono (hx : Settles x P Q) (hP : ∀ a, P a → P' a) (hQ : ∀ e, Q e → Q' e) :
    Settles x P' Q' := by
  intro s
  have hs := hx s
  rcases hr : (runFrom x s).1 with e | a <;> rw [hr] at hs
  · exact hQ _ hs
  · exact hP a hs

theorem Settles.and_returns (hx : Settles x P Q) (h : ∀ s a t, Returns x s a t → P' a) :
    Settles x (fun a => P a ∧ P' a) Q := by
  intro s
  have hs := hx s
  rcases hr : runFrom x s with ⟨e | a, u⟩ <;> rw [hr] at hs
  · exact hs
  · exact ⟨hs, h s a u hr⟩

end sequences

/-! ### Steps that cannot fail -/

theorem settles_get {Q : BuildError → Prop} : Settles get (fun _ => True) Q := fun _ => trivial

theorem settles_modify {f : BuildState → BuildState} {Q : BuildError → Prop} :
    Settles (modify f) (fun _ => True) Q := fun _ => trivial

theorem settles_registerIgnored {l : Location} {Q : BuildError → Prop} :
    Settles (registerIgnored l) (fun _ => True) Q := by
  refine settles_bind settles_get fun s _ => ?_
  dsimp only
  split
  · exact settles_bind settles_modify fun _ _ => settles_modify
  · exact settles_pure trivial

theorem settles_registerSensitive {l : Location} {target : String} {Q : BuildError → Prop} :
    Settles (registerSensitive l target) (fun _ => True) Q :=
  settles_bind settles_modify fun _ _ => settles_modify

theorem settles_registerSettable {site : Site} {Q : BuildError → Prop} :
    Settles (registerSettable site) (fun _ => True) Q := by
  unfold registerSettable
  split
  · exact settles_registerSensitive
  · exact settles_pure trivial

theorem settles_siteOf {name : FieldName} {l : Location} {traits : Traits} {comment : Comment}
    {Q : BuildError → Prop} :
    Settles (siteOf name l traits comment)
      (fun site => ∃ c, site = Site.ofAttribute c name l traits comment) Q :=
  settles_bind settles_get fun s _ => settles_pure ⟨s.config, rfl⟩

theorem settles_closeLevel {l : Location} {level : Level} {Q : BuildError → Prop} :
    Settles (closeLevel l level) (fun _ => True) Q := by
  have emits (name : String) (fields : List Field) :
      Settles (emitType l name fields) (fun _ => True) Q :=
    settles_bind settles_modify fun _ _ => settles_bind settles_get fun _ _ =>
      settles_bind settles_modify fun _ _ => settles_pure trivial
  exact settles_bind (emits _ _) fun _ _ => settles_bind (emits _ _) fun _ _ => settles_pure trivial

theorem settles_documentCompanions {typeName : String} {fields : List Field}
    {Q : BuildError → Prop} :
    Settles (documentCompanions typeName fields) (fun _ => True) Q := by
  induction fields with
  | nil => exact settles_pure trivial
  | cons f rest ih => exact settles_bind settles_modify fun _ _ => ih

theorem settles_placeObservation {site : Site} {f : Field} {level : Level}
    {Q : BuildError → Prop} : Settles (placeObservation site f level) (fun _ => True) Q :=
  settles_bind settles_modify fun _ _ => settles_pure trivial

theorem settles_placeParameter {site : Site} {f : Field} {level : Level}
    {Q : BuildError → Prop} : Settles (placeParameter site f level) (fun _ => True) Q := by
  refine settles_bind settles_modify fun _ _ => ?_
  cases site.reference with
  | none => exact settles_pure trivial
  | some r =>
      exact settles_bind settles_documentCompanions fun _ _ =>
        settles_bind settles_modify fun _ _ => settles_pure trivial

/-! ### Steps that can fail -/

theorem climb_error {t : SymbolTable} {candidate : String} {ancestors : List String}
    {e : AllocationError} (h : t.climb candidate ancestors = .error e) :
    ∃ name, e = .exhausted name := by
  induction ancestors generalizing candidate with
  | nil =>
      rw [climb] at h
      split at h
      · unfold allocateNumbered at h
        split at h
        · cases h
        · exact ⟨candidate, by cases h; rfl⟩
      · cases h
  | cons ancestor rest ih =>
      rw [climb] at h
      split at h
      · exact ih h
      · cases h

theorem allocate_error {t : SymbolTable} {suffix : String} {chain : List String}
    {e : AllocationError} (hc : chain ≠ []) (h : t.allocate suffix chain = .error e) :
    ∃ name, e = .exhausted name := by
  unfold SymbolTable.allocate at h
  split at h
  next hr => exact absurd (List.reverse_eq_nil_iff.mp hr) hc
  next => exact climb_error h

theorem settles_allocate {suffix : String} {chain : List String} (hc : chain ≠ []) :
    Settles (allocate suffix chain) (fun _ => True) BuildError.NamesExhausted := by
  refine settles_bind settles_get fun s _ => ?_
  cases h : s.symbols.allocate suffix chain with
  | ok name => exact settles_pure trivial
  | error e =>
      obtain ⟨name, rfl⟩ := allocate_error hc h
      exact settles_throw ⟨name, rfl⟩

theorem settles_openLevel {l : Location} (hl : l.names ≠ []) :
    Settles (openLevel l) (fun _ => True) BuildError.NamesExhausted :=
  settles_bind (settles_within (settles_allocate hl)) fun _ _ =>
    settles_bind (settles_within (settles_allocate hl)) fun _ _ =>
      settles_bind settles_modify fun _ _ => settles_bind settles_modify fun _ _ =>
        settles_pure trivial

theorem settles_commentOf {l : Location} {description : String} :
    Settles (commentOf l description) (fun c => Comment.parse description = .ok c)
      fun e => ∃ cause, Comment.parse description = .error cause ∧
        e = .comment description cause := by
  unfold commentOf
  cases h : Comment.parse description with
  | ok c => exact settles_pure rfl
  | error cause => exact settles_throw ⟨cause, rfl, rfl⟩

theorem secretField?_eq_none_iff {name : String} {type : ValueType} {optional : Bool} :
    secretField? name type optional = none ↔ type.isStringLike = false := by
  unfold secretField?
  cases type.isStringLike <;> cases optional <;> simp

theorem settles_base {site : Site} {v : Variant} (ho : v.isObservation = false) :
    Settles (ofExcept (site.base v.type)) (fun _ => ¬ site.Exposes v)
      fun e => site.Exposes v ∧ e = .invalidSensitiveType v.type site.name.camel := by
  unfold Site.base
  cases hs : site.sensitive with
  | false => exact settles_pure fun h => Bool.false_ne_true (hs.symm.trans h.1)
  | true =>
      rw [if_pos rfl]
      cases hf : secretField? site.name.camel v.type site.optional with
      | none => exact settles_throw ⟨⟨hs, ho, secretField?_eq_none_iff.mp hf⟩, rfl⟩
      | some secret =>
          refine settles_pure fun h => ?_
          rw [secretField?_eq_none_iff.mpr h.2.2] at hf
          cases hf

theorem settles_placeVariant (site : Site) (v : Variant) (level : Level) :
    Settles (placeVariant site v level) (fun _ => ¬ site.Exposes v)
      fun e => site.Exposes v ∧ e = .invalidSensitiveType v.type site.name.camel := by
  unfold placeVariant
  cases ho : v.isObservation with
  | true =>
      have safe : ¬ site.Exposes v := fun h => Bool.false_ne_true (h.2.1.symm.trans ho)
      rw [if_pos rfl]
      cases site.sensitive with
      | true => exact settles_bind settles_registerSensitive fun _ _ => settles_pure safe
      | false => exact settles_placeObservation.mono (fun _ _ => safe) fun _ h => h
  | false =>
      rw [if_neg Bool.false_ne_true]
      refine settles_bind (settles_base ho) fun base safe => ?_
      refine settles_bind settles_registerSettable fun _ _ => ?_
      exact settles_placeParameter.mono (fun _ _ => safe) fun _ h => h

/-- Variants are placed unless one of them exposes a secret. -/
theorem settles_placeVariants {site : Site} {variants : List Variant} {level : Level} :
    Settles (placeVariants site variants level) (fun _ => ∀ v ∈ variants, ¬ site.Exposes v)
      fun e => ∃ v ∈ variants, site.Exposes v ∧
        e = .invalidSensitiveType v.type site.name.camel := by
  induction variants generalizing level with
  | nil => exact settles_pure (by simp)
  | cons v rest ih =>
      refine settles_bind ((settles_placeVariant site v level).mono (fun _ h => h) fun e h =>
        ⟨v, List.mem_cons_self, h⟩) fun placed safe => ?_
      refine ih.mono (fun _ h => List.forall_mem_cons.mpr ⟨safe, h⟩) ?_
      rintro e ⟨w, hw, h⟩
      exact ⟨w, List.mem_cons_of_mem v hw, h⟩

end Build

end ResourceTypes
