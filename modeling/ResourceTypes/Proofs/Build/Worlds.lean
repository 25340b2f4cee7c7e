import ResourceTypes.Proofs.Build.Links

/-! # The two worlds

The types for what can be set and the types for what is observed form two worlds.  They are apart
when no field of one mentions a type of the other, and the observation types are linked when each
is mentioned by one field, of the observation type of the level above.

A resource that is itself the element of an attribute gives two variants with a flag each.  When
an element schema stands between them, both variants take the flag of the attribute, and the one
to which it does not belong is placed in the other world; only when the attribute and the
innermost collection are both observed is there one variant, with the right flag
(`Attribute.mixesWorlds`).  `worlds_apart_iff` says that the two properties hold exactly when no
attribute that leads to a resource is of this kind. -/

namespace ResourceTypes

namespace Attribute

/-- An element schema gives a variant of the nested resource the flag of the other world. -/
def mixesWorlds (a : Attribute) : Bool :=
  !a.traits.sensitive && !a.holdsDirectly && !(a.isObservation && a.innermost.isObservation)

theorem innermost_of_holdsDirectly : ∀ {a : Attribute}, a.holdsDirectly = true →
    a.innermost.isObservation = a.isObservation
  | .mk _ (.resource _), _ => rfl

theorem mixesWorlds_eq_false_iff {a : Attribute} {r : Resource} {n : TypeNames}
    (h : a.nested? = some r) (hn : n.parameters ≠ n.observation) :
    a.mixesWorlds = false ↔ ∀ observed, n.ofWorld (!observed) ∉ a.mentioned n observed := by
  rw [Bool.forall_bool, mentioned_of_nested n false h, mentioned_of_nested n true h, mixesWorlds]
  cases hd : a.holdsDirectly with
  | true =>
      have hi := innermost_of_holdsDirectly hd
      cases a.traits.sensitive <;> cases ho : a.isObservation <;>
        simp [TypeNames.ofWorld, hn, hn.symm, hi, ho]
  | false =>
      cases a.traits.sensitive <;> cases a.isObservation <;> cases a.innermost.isObservation <;>
        simp [TypeNames.ofWorld, hn, hn.symm]

theorem observation_mentioned {a : Attribute} {r : Resource} (n : TypeNames)
    (h : a.nested? = some r) (hs : a.traits.sensitive = false) :
    n.observation ∈ a.mentioned n false ++ a.mentioned n true := by
  rw [mentioned_of_nested n false h, mentioned_of_nested n true h, hs]
  cases a.holdsDirectly <;> cases a.isObservation <;> simp

end Attribute

/-- No field of one world mentions a type of the other. -/
def WorldsApart (levels : Forest BuiltLevel) : Prop :=
  ∀ b ∈ levels.preorder, ∀ c ∈ levels.preorder, ∀ observed,
    (c.typeOf (!observed)).name ∉ mentions (b.typeOf observed).fields

/-- The observation type of every nested resource whose attribute is not sensitive is mentioned
by one field, of the observation type of the level above. -/
def ObservationsLinked (g : Generated) (levels : Forest BuiltLevel) : Prop :=
  ∀ c ∈ levels.preorder, ∀ v ∈ c.holder, v.2.traits.sensitive = false →
    (mentions (g.types.flatMap TypeDecl.fields)).count (c.typeOf true).name = 1 ∧
      ∃ p, levels.IsChild p c ∧ (c.typeOf true).name ∈ mentions (p.typeOf true).fields

namespace LinkedLevels

variable {levels : Forest BuiltLevel}

theorem mentioned_of_mem_mentions (h : LinkedLevels levels) {b c : BuiltLevel}
    (hb : b ∈ levels.preorder) (hc : c ∈ levels.preorder) {x : String} (hx : x ∈ c.names.both)
    {observed : Bool} (hm : x ∈ mentions (b.typeOf observed).fields) :
    x ∈ c.mentioned observed := by
  obtain ⟨d, hd, hxd⟩ := h.exists_child hb hm
  have hxn : x ∈ d.names.both := h.mentioned_subset hd.mem_preorder _ hxd
  rwa [eq_of_mem_flatMap h.names hc hd.mem_preorder hx hxn]

theorem mem_mentions_of_isChild (h : LinkedLevels levels) {p c : BuiltLevel}
    (hc : levels.IsChild p c) {x : String} {observed : Bool} (hx : x ∈ c.mentioned observed) :
    x ∈ mentions (p.typeOf observed).fields := by
  obtain ⟨children, hf, hmem⟩ := hc
  rw [BuiltLevel.typeOf, h.linked _ hf]
  exact List.mem_flatMap_of_mem hmem hx

/-- The worlds are apart when no level is mentioned for a type of the other world. -/
theorem worldsApart_iff (h : LinkedLevels levels) (hroots : ∀ b ∈ levels.roots, b.holder = none) :
    WorldsApart levels ↔
      ∀ c ∈ levels.preorder, ∀ observed, c.names.ofWorld (!observed) ∉ c.mentioned observed := by
  constructor
  · intro hw c hc observed hx
    rcases Forest.mem_preorder_iff.mp hc with hroot | ⟨p, hp⟩
    · simp [BuiltLevel.mentioned, hroots c hroot] at hx
    · exact hw p hp.parent_mem_preorder c hc observed (h.mem_mentions_of_isChild hp hx)
  · intro hc b hb c hcm observed hx
    exact hc c hcm observed
      (h.mentioned_of_mem_mentions hb hcm (TypeNames.mem_both.mpr ⟨!observed, rfl⟩) hx)

/-- A level is mentioned for no type of the other world when its attribute mixes no worlds. -/
theorem mentioned_apart_iff (h : LinkedLevels levels) {c : BuiltLevel} (hc : c ∈ levels.preorder) :
    (∀ observed, c.names.ofWorld (!observed) ∉ c.mentioned observed) ↔
      ∀ v ∈ c.holder, v.2.mixesWorlds = false := by
  cases hh : c.holder with
  | none => simp [BuiltLevel.mentioned, hh]
  | some v =>
      obtain ⟨r, hr⟩ := h.leads c hc v hh
      simp only [BuiltLevel.mentioned, hh, Option.mem_def, Option.some.injEq, forall_eq']
      exact (Attribute.mixesWorlds_eq_false_iff hr (h.parameters_ne_observation hc)).symm

theorem observation_mentioned (h : LinkedLevels levels) {c : BuiltLevel} (hc : c ∈ levels.preorder)
    {v : String × Attribute} (hv : v ∈ c.holder) (hs : v.2.traits.sensitive = false) :
    ∃ observed, (c.typeOf true).name ∈ c.mentioned observed := by
  obtain ⟨r, hr⟩ := h.leads c hc v hv
  have hh : c.holder = some v := hv
  have hmem := Attribute.observation_mentioned c.names hr hs
  simp only [BuiltLevel.mentioned, hh]
  exact (List.mem_append.mp hmem).elim (fun hm => ⟨false, hm⟩) fun hm => ⟨true, hm⟩

theorem observationsLinked {schema : Resource} {kind : String} {g : Generated}
    (h : LinkedLevels levels) (hlaid : LaidOut schema kind g levels) (hw : WorldsApart levels) :
    ObservationsLinked g levels := by
  intro c hc v hv hs
  obtain ⟨observed, hm⟩ := h.observation_mentioned hc hv hs
  rcases Forest.mem_preorder_iff.mp hc with hroot | ⟨p, hp⟩
  · rw [hlaid.holder_of_root hroot] at hv
    cases hv
  · have hpm := h.mem_mentions_of_isChild hp hm
    have hall := hlaid.mem_mentions hp.parent_mem_preorder hpm
    have hcount := List.count_eq_one_of_mem (hlaid.types ▸ h.nodup_mentions) hall
    cases observed with
    | true => exact ⟨hcount, p, hp, hpm⟩
    | false => exact absurd hpm (hw p hp.parent_mem_preorder c hc false)

end LinkedLevels

/-! ### Main statement -/

/-- The worlds are apart and the observation types linked exactly when no attribute that leads to
a resource mixes the worlds. -/
theorem worlds_apart_iff {schema : Resource} {config : Config} {symbols : SymbolTable}
    {g : Generated} (h : (build schema config symbols).outcome = .ok g) :
    ∃ levels, LaidOut schema config.kind g levels ∧
      (WorldsApart levels ∧ ObservationsLinked g levels ↔
        ∀ v ∈ schema.nested.preorder, v.2.mixesWorlds = false) := by
  obtain ⟨levels, hb⟩ := built_of_build h
  have hl := hb.linkedLevels
  have hlaid := hb.laidOut
  have hkey : WorldsApart levels ↔ ∀ v ∈ schema.nested.preorder, v.2.mixesWorlds = false := by
    rw [hl.worldsApart_iff fun _ hroot => hlaid.holder_of_root hroot]
    constructor
    · intro hc v hv
      obtain ⟨c, hcm, hcv⟩ := hlaid.mem_holder.mpr hv
      exact (hl.mentioned_apart_iff hcm).mp (hc c hcm) v hcv
    · intro hmix c hcm
      exact (hl.mentioned_apart_iff hcm).mpr fun v hv => hmix v (hlaid.mem_holder.mp ⟨c, hcm, hv⟩)
  refine ⟨levels, hlaid, fun hw => hkey.mp hw.1, fun hmix => ?_⟩
  have hw := hkey.mpr hmix
  exact ⟨hw, hl.observationsLinked hlaid hw⟩

theorem worlds_apart_iff_crossed :
    ∃ g levels, (build crossedSchema { name := "k", kind := "K" } crossedTable).outcome = .ok g ∧
      LaidOut crossedSchema "K" g levels ∧ g.types.length = 8 ∧
      WorldsApart levels ∧ ObservationsLinked g levels := by
  obtain ⟨g, hg, hlen⟩ := BuildResult.exists_ok (f := fun g => g.types.length)
    (show (build crossedSchema { name := "k", kind := "K" } crossedTable).outcome.toOption.map _ =
      some 8 by decide +kernel)
  obtain ⟨levels, hlaid, hiff⟩ := worlds_apart_iff hg
  obtain ⟨hapart, hlinked⟩ := hiff.mpr (by decide +kernel)
  exact ⟨g, levels, hg, hlaid, hlen, hapart, hlinked⟩

/-- A list of lists of resources. -/
def gridSchema : Resource :=
  .mk
    [("a", .mk { kind := .list, optional := true }
      (.schema (.mk { kind := .list, optional := true }
        (.resource (.mk [("x", .mk { kind := .string, optional := true } .unset)])))))]

/-- Both types of the inner resource are mentioned by the type for what can be set. -/
theorem worlds_mixed_grid :
    ∃ g, (build gridSchema { name := "n", kind := "K" } .empty).outcome = .ok g ∧
      ∀ levels, LaidOut gridSchema "K" g levels →
        ¬ WorldsApart levels ∧ ¬ ObservationsLinked g levels := by
  obtain ⟨g, hg, hmentions⟩ := BuildResult.exists_ok
    (f := fun g => g.types.map fun t => (t.name, mentions t.fields))
    (show (build gridSchema { name := "n", kind := "K" } .empty).outcome.toOption.map _ =
      some [("AParameters", []), ("AObservation", []),
        ("KParameters", ["AObservation", "AParameters"]), ("KObservation", [])] by decide +kernel)
  refine ⟨g, hg, fun levels hlaid => ?_⟩
  obtain ⟨r, below, _, rfl, -, hbelow, hnil⟩ := Forest.map_eq_node hlaid.holders
  obtain rfl := Forest.map_eq_nil hnil
  obtain ⟨c, _, _, rfl, hc, hinner, hbeside⟩ := Forest.map_eq_node hbelow
  obtain rfl := Forest.map_eq_nil hinner
  obtain rfl := Forest.map_eq_nil hbeside
  have htypes : g.types = [c.typeOf false, c.typeOf true, r.typeOf false, r.typeOf true] := by
    rw [hlaid.types]
    rfl
  rw [htypes] at hmentions
  simp only [List.map_cons, List.map_nil, List.cons.injEq, Prod.mk.injEq] at hmentions
  obtain ⟨-, ⟨hname, -⟩, ⟨-, hsettable⟩, ⟨-, hobserved⟩, -⟩ := hmentions
  have hrmem : r ∈ (Forest.node r (.node c .nil .nil) .nil).preorder := List.mem_cons_self
  have hcmem : c ∈ (Forest.node r (.node c .nil .nil) .nil).preorder :=
    List.mem_cons_of_mem r List.mem_cons_self
  constructor
  · intro hapart
    refine hapart r hrmem c hcmem false ?_
    rw [hsettable, Bool.not_false, hname]
    exact List.mem_cons_self
  · intro hlinked
    obtain ⟨-, p, ⟨children, hf, hcc⟩, hmem⟩ := hlinked c hcmem _ hc rfl
    have hpr : p = r := by
      simp only [Forest.families, Forest.roots, List.mem_cons, List.not_mem_nil, or_false,
        List.append_nil, Prod.mk.injEq] at hf
      rcases hf with ⟨rfl, -⟩ | ⟨-, rfl⟩
      · rfl
      · cases hcc
    rw [hpr, hobserved] at hmem
    cases hmem

end ResourceTypes
