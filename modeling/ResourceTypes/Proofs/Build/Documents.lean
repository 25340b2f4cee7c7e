import ResourceTypes.Proofs.Build.Effects
import ResourceTypes.Proofs.Field.Comment
import ResourceTypes.Proofs.OrderedMap

/-! # What a build documents

`Documents entries s t` says that between two states the entries are put into the documentation.
Only the placing of a variant puts any in: each field that the variant adds has a text
(`Site.documentation`), which is entered under the name of the type to which the field is added
(`documents_placeVariants`). -/

namespace ResourceTypes

open Build

/-! ### Documentation of a variant -/

namespace Site

/-- The lines of a field that can be set: the text, the marker that says whether the field is
required, and the markers of its reference. -/
def parameterLines (s : Site) (text : List String) : List String :=
  text ++ Comment.requiredMarker s.required :: s.reference.toList.flatMap Comment.referenceMarkers

/-- The fields that a variant adds to one of the two types, each with the lines that document it.
The fields after the first one that can be set are its companions, which are optional. -/
def documentation (s : Site) (text : List String) (observed : Bool) (v : Variant) :
    List (Field × List String) :=
  if observed then (s.observationFields v).map fun f => (f, text)
  else match s.parameterFields v with
    | [] => []
    | base :: companions =>
      (base, s.parameterLines text) ::
        companions.map fun f => (f, [Comment.requiredMarker false])

theorem map_fst_documentation (s : Site) (text : List String) (observed : Bool) (v : Variant) :
    (s.documentation text observed v).map Prod.fst =
      if observed then s.observationFields v else s.parameterFields v := by
  unfold documentation
  cases observed with
  | true => simp [Function.comp_def]
  | false =>
      cases s.parameterFields v with
      | nil => rfl
      | cons base companions => simp [Function.comp_def]

theorem render_parameterComment {s : Site} {text : List String} (h : s.comment.Plain text) :
    s.parameterComment.render = Comment.joined (s.parameterLines text) := by
  rw [parameterComment, Comment.render, Comment.markers, h.lines]
  simp [Comment.joined, parameterLines]

/-- The entry of a documented field of a type. -/
def entry (typeName : String) (d : Field × List String) : (String × String) × String :=
  ((typeName, d.1.name), Comment.joined d.2)

/-- What placing a variant documents in the two types of its level. -/
def commentEntries (s : Site) (text : List String) (n : TypeNames) (v : Variant) :
    List ((String × String) × String) :=
  (s.documentation text true v).map (entry n.observation) ++
    (s.documentation text false v).map (entry n.parameters)

end Site

/-! ### Documenting steps -/

/-- Between the states the entries are put into the documentation. -/
def Documents (entries : List ((String × String) × String)) (s t : BuildState) : Prop :=
  t.comments = s.comments.insertAll entries

theorem Documents.trans {entries entries' : List ((String × String) × String)}
    {s t u : BuildState} (h : Documents entries s t) (h' : Documents entries' t u) :
    Documents (entries ++ entries') s u := by
  rw [Documents, h', h, OrderedMap.insertAll_append]

namespace Build

variable {s t : BuildState}

theorem documentsNone : StateOrder (Documents []) where
  refl _ := rfl
  trans h h' := h.trans h'

theorem documents_registerSensitive (l : Location) (target : String) :
    Moves (Documents []) (registerSensitive l target) := fun _ => rfl

theorem documents_registerIgnored {l : Location} {a : Unit}
    (h : Returns (registerIgnored l) s a t) : Documents [] s t := by
  rw [Returns, runFrom_registerIgnored, Prod.mk.injEq] at h
  obtain ⟨-, rfl⟩ := h
  split <;> rfl

theorem documents_openLevel {l : Location} {level : Level} (h : Returns (openLevel l) s level t) :
    Documents [] s t :=
  (documentsNone.moves_openLevel (fun _ _ => rfl) l).of_returns h

theorem documents_closeLevel {l : Location} {level : Level} {r : TypeRef × TypeRef}
    (h : Returns (closeLevel l level) s r t) : Documents [] s t :=
  (documentsNone.composes.closeLevel (fun _ _ _ _ => rfl) l level).of_returns h

theorem documents_document {typeName fieldName text : String} {a : Unit}
    (h : Returns (document typeName fieldName text) s a t) :
    Documents [((typeName, fieldName), text)] s t := by
  rw [document, returns_modify] at h
  subst h
  rfl

theorem documents_documentCompanions {typeName : String} {fields : List Field} {a : Unit}
    (h : Returns (documentCompanions typeName fields) s a t) :
    Documents (fields.map fun f => Site.entry typeName (f, [Comment.requiredMarker false]))
      s t := by
  induction fields generalizing s with
  | nil =>
      obtain ⟨-, rfl⟩ := returns_pure.mp h
      rfl
  | cons f rest ih =>
      obtain ⟨_, u, hd, hr⟩ := returns_bind.mp h
      exact (documents_document hd).trans (ih hr)

theorem documents_placeParameter {site : Site} {f : Field} {level level' : Level}
    (h : Returns (placeParameter site f level) s level' t) :
    Documents (((level.parameters, f.name), site.parameterComment.render) ::
      (site.reference.toList.flatMap (companions f)).map fun c =>
        Site.entry level.parameters (c, [Comment.requiredMarker false])) s t := by
  obtain ⟨_, u, hd, h⟩ := returns_bind.mp h
  have hbase := documents_document hd
  cases hr : site.reference with
  | none =>
      simp only [hr] at h
      obtain ⟨-, rfl⟩ := returns_pure.mp h
      exact hbase
  | some r =>
      simp only [hr] at h
      obtain ⟨_, v, hc, h⟩ := returns_bind.mp h
      obtain ⟨_, w, hrec, h⟩ := returns_bind.mp h
      obtain ⟨-, rfl⟩ := returns_pure.mp h
      rw [record, returns_modify] at hrec
      have hcompanions := hbase.trans (documents_documentCompanions hc)
      subst hrec
      simpa [Documents] using hcompanions

/-! ### Placing variants -/

theorem documents_placeVariant {site : Site} {v : Variant} {level level' : Level}
    {text : List String} (plain : site.comment.Plain text)
    (h : Returns (placeVariant site v level) s level' t) :
    Documents (site.commentEntries text level.typeNames v) s t := by
  unfold Site.commentEntries Site.documentation Site.observationFields Site.parameterFields
  obtain ⟨ho, hs, -, hreg⟩ | ⟨ho, hs, hplaced⟩ | ⟨ho, base, u, hb, hreg, hplaced⟩ :=
    placeVariant_cases h
  · have hnone := (documents_registerSensitive _ _).of_returns hreg
    simpa [ho, hs] using hnone
  · obtain ⟨_, u, hd, hp⟩ := returns_bind.mp hplaced
    obtain ⟨-, rfl⟩ := returns_pure.mp hp
    have hobserved := documents_document hd
    rw [plain.render_eq] at hobserved
    simpa [ho, hs, Site.entry, Level.typeNames] using hobserved
  · have hnone := (documentsNone.composes.registerSettable fun _ =>
      documents_registerSensitive _).of_returns hreg
    have hsettable := hnone.trans (documents_placeParameter hplaced)
    rw [Site.render_parameterComment plain] at hsettable
    simpa [ho, hb, Site.entry, Level.typeNames, Function.comp_def] using hsettable

/-- Placed variants document their fields in order. -/
theorem documents_placeVariants {site : Site} {variants : List Variant} {level level' : Level}
    {text : List String} (plain : site.comment.Plain text)
    (h : Returns (placeVariants site variants level) s level' t) :
    Documents (variants.flatMap (site.commentEntries text level.typeNames)) s t := by
  induction variants generalizing level s with
  | nil =>
      obtain ⟨-, rfl⟩ := returns_pure.mp h
      rfl
  | cons v rest ih =>
      obtain ⟨placed, u, hv, hr⟩ := returns_bind.mp h
      have hnames : placed.typeNames = level.typeNames := by
        rw [(returns_placeVariant hv).1]
        rfl
      have hrest := ih hr
      rw [hnames] at hrest
      exact (documents_placeVariant plain hv).trans hrest

end Build

end ResourceTypes
