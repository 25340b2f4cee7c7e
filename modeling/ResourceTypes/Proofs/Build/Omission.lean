import ResourceTypes.Proofs.Build.Chains
import ResourceTypes.Proofs.Build.Documentation
import ResourceTypes.Proofs.Build.FieldLists

/-! # Fields that may be left out

The tag of a field that can be set says whether the field may be left out (`Field.Omits`), and its
documentation whether it is required (`Contribution.required`).  The fields in question are the
base fields of attributes; those after them are companions (`Contribution.fieldsOf_eq_bases`).

A value has the option in its tag, and loses it when it is required.  The reference in place of
a secret has the option only if the schema or the configuration lets it be left out: a description
can take the option away, but gives none.  So tag and documentation agree but for secrets that are
optional by their description alone (`omission_of_build`). -/

namespace ResourceTypes

open Build

/-- The JSON tag ends in the option to leave the field out. -/
def Field.Omits (f : Field) : Prop := omitEmpty.toList <:+ f.tags.json.toList

instance (f : Field) : Decidable f.Omits :=
  inferInstanceAs (Decidable (omitEmpty.toList <:+ f.tags.json.toList))

/-! ### Tags at a site -/

namespace Site

variable {s : Site} {f : Field} {tag : String}

theorem not_suffix_of_alphanum (h : ∀ c ∈ tag.toList, c.isAlphanum = true) :
    ¬ omitEmpty.toList <:+ tag.toList := fun hsuffix =>
  absurd (h ',' (hsuffix.subset (by decide))) (by decide)

theorem omits_tagged_iff (hs : s.comment.jsonTag = none)
    (halpha : ∀ c ∈ tag.toList, c.isAlphanum = true) (hf : f.tags.json = tag ++ omitEmpty) :
    (s.tagged false f).Omits ↔ s.required = false := by
  rw [Field.Omits, tagged, hs, hf]
  cases hr : s.required with
  | true => simpa [withoutOmitEmpty_append] using not_suffix_of_alphanum halpha
  | false => simp

theorem not_omits_tagged (hs : s.comment.jsonTag = none)
    (halpha : ∀ c ∈ tag.toList, c.isAlphanum = true) (hf : f.tags.json = tag) :
    ¬ (s.tagged false f).Omits := by
  rw [Field.Omits, tagged, hs, hf, withoutOmitEmpty_of_alphanum halpha]
  simpa using not_suffix_of_alphanum halpha

theorem json_of_base_secret {type : ValueType} (hs : s.sensitive = true)
    (h : s.base type = .ok f) :
    f.tags.json = (FieldName.ofCamel (s.name.camel ++ secretRefSuffix)).tag ++
      if s.optional then omitEmpty else "" := by
  rw [base, if_pos hs, secretField?] at h
  cases ht : type.isStringLike with
  | false =>
      rw [ht] at h
      cases h
  | true => cases ho : s.optional <;> rw [ht, ho] at h <;> cases h <;> simp

end Site

/-! ### Base fields -/

namespace Contribution

variable {config : Config} (c : Contribution config) {f : Field}

/-- The field must be given: as the description demands, else unless the attribute is optional or
refers to another resource. -/
def required : Bool :=
  c.comment.requiredOverride.getD (!c.reached.attr.omittable (config.referenceFor? c.reached.path))

/-- The fields that can be set, without the companions of their reference. -/
def bases : List Field := c.variants.filterMap fun v => (c.site.parameterFields v).head?

theorem fieldsOf_eq_bases :
    c.fieldsOf false =
      c.bases.flatMap fun f => f :: c.site.reference.toList.flatMap (companions f) := by
  unfold fieldsOf bases
  induction c.variants with
  | nil => rfl
  | cons v rest ih =>
      rw [List.flatMap_cons, ih, List.filterMap_cons]
      unfold Site.parameterFields
      cases v.isObservation with
      | true => rfl
      | false => cases c.site.base v.type <;> rfl

theorem mem_bases_iff :
    f ∈ c.bases ↔ ∃ v ∈ c.variants, v.isObservation = false ∧
      ∃ base, c.site.base v.type = .ok base ∧ f = c.site.tagged false base := by
  rw [bases, List.mem_filterMap]
  refine exists_congr fun v => and_congr_right fun _ => ?_
  unfold Site.parameterFields
  cases v.isObservation with
  | true => simp
  | false => cases c.site.base v.type <;> simp [eq_comm]

/-- A base field is documented by the text of the attribute, the marker that says whether it is
required, and the markers of its reference. -/
theorem mem_documentation_of_base (hf : f ∈ c.bases) :
    (f, c.text ++ Comment.requiredMarker c.required ::
      c.site.reference.toList.flatMap Comment.referenceMarkers) ∈ c.documentation false := by
  obtain ⟨v, hv, ho, base, hb, rfl⟩ := c.mem_bases_iff.mp hf
  refine List.mem_flatMap_of_mem hv ?_
  simp only [Site.documentation, Site.parameterFields, ho, hb, Bool.false_eq_true, if_false]
  exact List.mem_cons_self

/-- A base field may be left out when it is not required; if it is the reference to a secret, the
attribute must be optional or refer to another resource, too. -/
theorem omits_iff (hf : f ∈ c.bases) (snake : FieldName.isSnakeName c.reached.name = true)
    (untagged : c.comment.jsonTag = none) :
    f.Omits ↔ c.required = false ∧ (c.reached.attr.traits.sensitive = true →
      c.reached.attr.omittable (config.referenceFor? c.reached.path) = true) := by
  obtain ⟨v, -, -, base, hb, rfl⟩ := c.mem_bases_iff.mp hf
  have hrequired : c.site.required = c.required := rfl
  have hoptional :
      c.site.optional = c.reached.attr.omittable (config.referenceFor? c.reached.path) := rfl
  cases hs : c.reached.attr.traits.sensitive with
  | false =>
      rw [Site.base, if_neg (by rw [show c.site.sensitive = false from hs]; decide)] at hb
      cases hb
      rw [Site.omits_tagged_iff untagged (FieldName.alphanum_ofSnake snake).2.2 rfl, hrequired]
      simp
  | true =>
      have halpha := FieldName.alphanum_tag_ofCamel (FieldName.alphanum_camel_secretRef snake)
      have hjson := Site.json_of_base_secret hs hb
      rw [hoptional] at hjson
      cases ho : c.reached.attr.omittable (config.referenceFor? c.reached.path) with
      | true =>
          rw [ho, if_pos rfl] at hjson
          rw [Site.omits_tagged_iff untagged halpha hjson, hrequired]
          simp
      | false =>
          rw [ho, if_neg Bool.false_ne_true, String.append_empty] at hjson
          simpa using Site.not_omits_tagged untagged halpha hjson

/-- The tag of a base field agrees with its documentation unless the field is the reference to a
secret that is optional by its description alone. -/
theorem omits_agrees_iff (hf : f ∈ c.bases) (snake : FieldName.isSnakeName c.reached.name = true)
    (untagged : c.comment.jsonTag = none) :
    (f.Omits ↔ c.required = false) ↔ ¬ (c.reached.attr.traits.sensitive = true ∧
      c.reached.attr.omittable (config.referenceFor? c.reached.path) = false ∧
      c.comment.requiredOverride = some false) := by
  rw [c.omits_iff hf snake untagged, required]
  cases c.reached.attr.traits.sensitive <;>
    cases c.reached.attr.omittable (config.referenceFor? c.reached.path) <;>
    rcases c.comment.requiredOverride with _ | _ | _ <;> decide

theorem bases_secret (hs : c.reached.attr.traits.sensitive = true)
    (ho : c.reached.attr.isObservation = false) (hk : c.reached.attr.kind = .string) :
    c.bases = [c.site.secretRef] := by
  rw [bases, variants, Attribute.variants_of_string _ hk, List.filterMap_cons,
    Site.parameterFields_secret hs ho rfl]
  rfl

end Contribution

/-! ### Main statement -/

/-- The fields that can be set are base fields with their companions.  A base field that is alone in
having its key is documented with the marker that says whether it is required; its tag agrees with
the marker unless it is the reference to a secret that is optional by its description alone. -/
theorem omission_of_build {schema : Resource} {config : Config} {symbols : SymbolTable}
    {g : Generated} (h : (build schema config symbols).outcome = .ok g) :
    ∃ levels : Forest (FilledLevel config),
      LaidOut schema config.kind g (levels.map FilledLevel.built) ∧
      ((contributionsOf levels).map Contribution.reached).Perm schema.reached ∧
      ∀ b ∈ levels.preorder,
        (b.built.typeOf false).fields = b.contributions.flatMap (fun c =>
          c.bases.flatMap fun f => f :: c.site.reference.toList.flatMap (companions f)) ∧
        ∀ c ∈ b.contributions, ∀ f ∈ c.bases,
          (g.fieldKeys.count ((b.built.typeOf false).name, f.name) = 1 →
            g.comments.get? ((b.built.typeOf false).name, f.name) = some (Comment.joined
              (c.text ++ Comment.requiredMarker c.required ::
                c.site.reference.toList.flatMap Comment.referenceMarkers))) ∧
          (FieldName.isSnakeName c.reached.name = true → c.comment.jsonTag = none →
            ((f.Omits ↔ c.required = false) ↔ ¬ (c.reached.attr.traits.sensitive = true ∧
              c.reached.attr.omittable (config.referenceFor? c.reached.path) = false ∧
              c.comment.requiredOverride = some false))) := by
  obtain ⟨_, hb⟩ := built_of_build h
  have hlaid := hb.laidOut
  obtain ⟨levels, rfl, hreached, entries, hcomments, hentries⟩ := hb.documented
  refine ⟨levels, hlaid, hreached, fun b hmem =>
    ⟨?_, fun c hc f hf => ⟨fun once => ?_, c.omits_agrees_iff hf⟩⟩⟩
  · rw [← b.map_fst_documentation, FilledLevel.documentation, List.map_flatMap]
    simp only [Contribution.map_fst_documentation, Contribution.fieldsOf_eq_bases]
  · have hd : _ ∈ b.documentation false :=
      List.mem_flatMap_of_mem hc (c.mem_documentation_of_base hf)
    rw [← (keys_entriesOf_perm hlaid).count_eq] at once
    rw [hcomments]
    exact get?_documented_of_once hentries hmem hd once

/-- A secret that is optional by its description, and maybe by its flag. -/
def keySchema (flagged : Bool) : Resource :=
  .mk
    [("key", .mk
      { kind := .string, optional := flagged, sensitive := true,
        description := "+tfcrd:field:Required=false" } .unset)]

theorem bases_key {config : Config} (flagged : Bool) {c : Contribution config}
    (hr : c.reached ∈ (keySchema flagged).reached) :
    FieldName.isSnakeName c.reached.name = true ∧ c.reached.attr.traits.optional = flagged ∧
      c.comment = { requiredOverride := some false } ∧
      c.reached.attr.traits.sensitive = true ∧ c.bases = [c.site.secretRef] := by
  have hreached := List.mem_singleton.mp hr
  have hparse : Comment.parse "+tfcrd:field:Required=false" =
      .ok { requiredOverride := some false } := by decide +kernel
  have hparsed := c.parsed
  rw [hreached] at hparsed
  have hsnake : FieldName.isSnakeName "key" = true := by decide
  refine ⟨by rw [hreached]; exact hsnake, by rw [hreached]; rfl,
    Except.ok.inj (hparsed.symm.trans hparse), by rw [hreached]; rfl, ?_⟩
  exact c.bases_secret (by rw [hreached]; rfl) (by rw [hreached]; rfl) (by rw [hreached]; rfl)

/-- The reference to a secret with the flag may be left out. -/
theorem omission_of_build_flagged :
    ∃ g, ∃ levels : Forest (FilledLevel { name := "k", kind := "K" }),
      (build (keySchema true) { name := "k", kind := "K" } .empty).outcome = .ok g ∧
      LaidOut (keySchema true) "K" g (levels.map FilledLevel.built) ∧
      ∃ c ∈ contributionsOf levels, c.required = false ∧ ∃ f ∈ c.bases, f.Omits := by
  obtain ⟨g, hg, -⟩ := BuildResult.exists_ok (f := fun g => g.types.length)
    (show (build (keySchema true) { name := "k", kind := "K" } .empty).outcome.toOption.map _ =
      some 2 by decide +kernel)
  obtain ⟨levels, hlaid, hperm, hlevels⟩ := omission_of_build hg
  obtain ⟨c, hc, -⟩ := List.mem_map.mp (hperm.mem_iff.mpr List.mem_cons_self)
  obtain ⟨hsnake, hflag, hcomment, -, hbases⟩ :=
    bases_key true (hperm.mem_iff.mp (List.mem_map_of_mem hc))
  obtain ⟨b, hb, hcb⟩ := List.mem_flatMap.mp hc
  have hf : c.site.secretRef ∈ c.bases := hbases ▸ List.mem_singleton_self _
  have hrequired : c.required = false := by rw [Contribution.required, hcomment]; rfl
  have hagree := ((hlevels b hb).2 c hcb _ hf).2 hsnake (by rw [hcomment])
  refine ⟨g, levels, hg, hlaid, c, hc, hrequired, _, hf, (hagree.mpr ?_).mpr hrequired⟩
  rw [Attribute.omittable, hflag]
  simp

/-- Without the flag it may not be, although its documentation says so. -/
theorem omission_missing :
    ∃ g, (build (keySchema false) { name := "k", kind := "K" } .empty).outcome = .ok g ∧
      g.types = [⟨"KParameters", [⟨"KeySecretRef", .secretKeySelector, ⟨"keySecretRef", "-"⟩⟩]⟩,
        ⟨"KObservation", []⟩] ∧
      g.comments.get? ("KParameters", "KeySecretRef") = some "+kubebuilder:validation:Optional" ∧
      ∀ levels : Forest (FilledLevel { name := "k", kind := "K" }),
        ((contributionsOf levels).map Contribution.reached).Perm (keySchema false).reached →
          ∃ c ∈ contributionsOf levels, FieldName.isSnakeName c.reached.name = true ∧
            c.comment.jsonTag = none ∧ ∃ f ∈ c.bases, ¬ (f.Omits ↔ c.required = false) := by
  obtain ⟨g, hg, hout⟩ := BuildResult.exists_ok
    (f := fun g => (g.types, g.comments.get? ("KParameters", "KeySecretRef")))
    (show (build (keySchema false) { name := "k", kind := "K" } .empty).outcome.toOption.map _ =
      some ([⟨"KParameters", [⟨"KeySecretRef", .secretKeySelector, ⟨"keySecretRef", "-"⟩⟩]⟩,
        ⟨"KObservation", []⟩], some "+kubebuilder:validation:Optional") by decide +kernel)
  obtain ⟨htypes, hcomment⟩ := Prod.mk.inj hout
  refine ⟨g, hg, htypes, hcomment, fun levels hperm => ?_⟩
  obtain ⟨c, hc, -⟩ := List.mem_map.mp (hperm.mem_iff.mpr List.mem_cons_self)
  obtain ⟨hsnake, hflag, hcomment, hs, hbases⟩ :=
    bases_key false (hperm.mem_iff.mp (List.mem_map_of_mem hc))
  have hf : c.site.secretRef ∈ c.bases := hbases ▸ List.mem_singleton_self _
  have huntagged : c.comment.jsonTag = none := by rw [hcomment]
  refine ⟨c, hc, hsnake, huntagged, _, hf, fun hagree => ?_⟩
  refine (c.omits_agrees_iff hf hsnake huntagged).mp hagree ⟨hs, ?_, by rw [hcomment]⟩
  rw [Attribute.omittable, hflag]
  rfl

end ResourceTypes
