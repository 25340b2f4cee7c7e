import ResourceTypes.Proofs.Build.Contributions

/-! # The documentation of an output

`Generated.fieldKeys` lists the fields of an output by the names of type and field.  The entries
that a build puts into its documentation have these keys (`keys_entriesOf_perm`), so that exactly
the fields of the output are documented, each under the type in which it is found.

Fields of one name in one type share an entry.  Where a key is that of a single field, its text is
the one that the attribute gives to the field (`documentation_of_build`). -/

namespace ResourceTypes

open Build

/-- The fields by the names of type and field, one for each field. -/
def Generated.fieldKeys (g : Generated) : List (String × String) :=
  g.types.flatMap fun t => t.fields.map fun f => (t.name, f.name)

/-! ### Keys of the entries -/

section keys

variable {config : Config} (b : FilledLevel config)

/-- The documented fields of a type have the keys of its fields. -/
theorem FilledLevel.keys_documentation (observed : Bool) :
    ((b.documentation observed).map (Site.entry (b.built.names.ofWorld observed))).map Prod.fst =
      (b.built.typeOf observed).fields.map fun f => ((b.built.typeOf observed).name, f.name) := by
  rw [← b.map_fst_documentation observed, List.map_map, List.map_map]
  rfl

theorem FilledLevel.keys_entries_perm :
    (b.entries.map Prod.fst).Perm
      (b.built.types.flatMap fun t => t.fields.map fun f => (t.name, f.name)) := by
  refine (b.entries_perm.map Prod.fst).trans ?_
  have hobserved := b.keys_documentation true
  have hsettable := b.keys_documentation false
  rw [TypeNames.ofWorld, if_pos rfl] at hobserved
  rw [TypeNames.ofWorld, if_neg Bool.false_ne_true] at hsettable
  rw [List.map_append, hobserved, hsettable, BuiltLevel.types_eq, List.flatMap_cons,
    List.flatMap_singleton]
  exact List.perm_append_comm

/-- What a build documents has the keys of its fields. -/
theorem keys_entriesOf_perm {schema : Resource} {g : Generated}
    {levels : Forest (FilledLevel config)} {kind : String}
    (h : LaidOut schema kind g (levels.map FilledLevel.built)) :
    ((entriesOf levels).map Prod.fst).Perm g.fieldKeys := by
  rw [entriesOf, Generated.fieldKeys, h.types, Forest.postorder_map, List.flatMap_map,
    List.flatMap_assoc, List.map_flatMap]
  refine (List.Perm.flatMap_left _ fun b _ => b.keys_entries_perm).trans ?_
  exact levels.postorder_perm_preorder.symm.flatMap_right _

end keys

theorem mem_entriesOf {config : Config} {levels : Forest (FilledLevel config)}
    {b : FilledLevel config} (hb : b ∈ levels.preorder) {observed : Bool}
    {d : Field × List String} (hd : d ∈ b.documentation observed) :
    Site.entry (b.built.typeOf observed).name d ∈ entriesOf levels := by
  refine List.mem_flatMap_of_mem hb (b.entries_perm.mem_iff.mpr ?_)
  cases observed with
  | true => exact List.mem_append_left _ (List.mem_map_of_mem hd)
  | false => exact List.mem_append_right _ (List.mem_map_of_mem hd)

theorem eq_of_count_map_eq_one {α β : Type} [BEq β] [LawfulBEq β] {l : List α} {f : α → β} {a b : α}
    (once : (l.map f).count (f a) = 1) (ha : a ∈ l) (hb : b ∈ l) (h : f b = f a) : b = a := by
  rw [List.count, List.countP_map, List.countP_eq_length_filter, List.length_eq_one_iff] at once
  obtain ⟨x, hx⟩ := once
  have only : ∀ c ∈ l, f c = f a → c = x := by
    intro c hc hfc
    have hmem : c ∈ l.filter ((fun y => y == f a) ∘ f) := List.mem_filter.mpr ⟨hc, by simp [hfc]⟩
    rw [hx] at hmem
    exact List.mem_singleton.mp hmem
  rw [only b hb h, only a ha rfl]

theorem get?_documented_of_once {config : Config} {levels : Forest (FilledLevel config)}
    {entries : List ((String × String) × String)}
    (hentries : ∀ e, e ∈ entries ↔ e ∈ entriesOf levels)
    {b : FilledLevel config} (hb : b ∈ levels.preorder) {observed : Bool}
    {d : Field × List String} (hd : d ∈ b.documentation observed)
    (once :
      ((entriesOf levels).map Prod.fst).count ((b.built.typeOf observed).name, d.1.name) = 1) :
    (OrderedMap.empty.insertAll entries).get? ((b.built.typeOf observed).name, d.1.name) =
      some (Comment.joined d.2) := by
  have he := mem_entriesOf hb hd
  refine OrderedMap.get?_insertAll_of_agree (e := Site.entry (b.built.typeOf observed).name d) _
    ((hentries _).mpr he) fun e' he' hkey => ?_
  rw [eq_of_count_map_eq_one once he ((hentries e').mp he') hkey]

/-! ### Main statement -/

/-- The documentation of a build is that of the fields of its output.  Each type has the documented
fields of its attributes in their order, and a field that is alone in having its key is documented
by the lines that its attribute gives to it. -/
theorem documentation_of_build {schema : Resource} {config : Config} {symbols : SymbolTable}
    {g : Generated} (h : (build schema config symbols).outcome = .ok g) :
    (∀ key, g.comments.contains key = true ↔ key ∈ g.fieldKeys) ∧
    ∃ levels : Forest (FilledLevel config),
      LaidOut schema config.kind g (levels.map FilledLevel.built) ∧
      ((contributionsOf levels).map Contribution.reached).Perm schema.reached ∧
      ∀ b ∈ levels.preorder, ∀ observed,
        (b.documentation observed).map Prod.fst = (b.built.typeOf observed).fields ∧
        ∀ d ∈ b.documentation observed,
          g.fieldKeys.count ((b.built.typeOf observed).name, d.1.name) = 1 →
            g.comments.get? ((b.built.typeOf observed).name, d.1.name) =
              some (Comment.joined d.2) := by
  obtain ⟨_, hb⟩ := built_of_build h
  have hlaid := hb.laidOut
  obtain ⟨levels, rfl, hreached, entries, hcomments, hentries⟩ := hb.documented
  have hkeys := keys_entriesOf_perm hlaid
  refine ⟨fun key => ?_, levels, hlaid, hreached, fun b hmem observed =>
    ⟨b.map_fst_documentation observed, fun d hd once => ?_⟩⟩
  · rw [hcomments, OrderedMap.contains_insertAll, ← hkeys.mem_iff]
    simp [OrderedMap.contains, hentries]
  · rw [← hkeys.count_eq] at once
    have he := mem_entriesOf hmem hd
    rw [hcomments]
    refine OrderedMap.get?_insertAll_of_agree (e := Site.entry (b.built.typeOf observed).name d) _
      ((hentries _).mpr he) fun e' he' hkey => ?_
    rw [eq_of_count_map_eq_one once he ((hentries e').mp he') hkey]

/-- A secret, and a described field that refers to another resource. -/
def accountSchema : Resource :=
  .mk
    [("pass", .mk { kind := .string, optional := true, sensitive := true } .unset),
      ("subnet", .mk
        { kind := .string, description := "The subnet. \n+tfcrd:field:TFTag=net\n" } .unset)]

theorem documentation_of_build_account :
    ∃ config g, (build accountSchema config .empty).outcome = .ok g ∧
      g.comments.contains ("KParameters", "PassSecretRef") = true ∧
      g.comments.contains ("KParameters", "Pass") = false ∧
      ∃ levels : Forest (FilledLevel config), ∃ b ∈ levels.preorder, ∃ observed,
        ∃ d ∈ b.documentation observed, d.1.name = "Subnet" ∧
          g.comments.get? ("KParameters", "Subnet") = some (Comment.joined d.2) ∧
          Comment.joined d.2 = "The subnet.\n+kubebuilder:validation:Optional\n" ++
            "+crossplane:generate:reference:type=Subnet" := by
  let config : Config :=
    { name := "k", kind := "K",
      references := .ofList [(⟨[.field "subnet"]⟩, { typeName := "Subnet" })] }
  obtain ⟨g, hg, hout⟩ := BuildResult.exists_ok
    (f := fun g => (g.fieldKeys, g.comments.get? ("KParameters", "Subnet")))
    (show (build accountSchema config .empty).outcome.toOption.map _ = some
      ([("KParameters", "PassSecretRef"), ("KParameters", "Subnet"), ("KParameters", "SubnetRef"),
          ("KParameters", "SubnetSelector")],
        some ("The subnet.\n+kubebuilder:validation:Optional\n" ++
          "+crossplane:generate:reference:type=Subnet")) by
      decide +kernel)
  obtain ⟨hkeys, htext⟩ := Prod.mk.inj hout
  obtain ⟨hdocumented, levels, hlaid, -, hlevels⟩ := documentation_of_build hg
  simp only [hkeys] at hdocumented hlevels
  have hdropped := mt (hdocumented ("KParameters", "Pass")).mp (by decide)
  have hsubnet : ("KParameters", "Subnet") ∈ g.fieldKeys := by rw [hkeys]; decide
  obtain ⟨t, ht, hf⟩ := List.mem_flatMap.mp hsubnet
  obtain ⟨f, hf, hname⟩ := List.mem_map.mp hf
  obtain ⟨_, hbuilt, observed, rfl⟩ := hlaid.mem_types.mp ht
  rw [Forest.preorder_map] at hbuilt
  obtain ⟨b, hb, rfl⟩ := List.mem_map.mp hbuilt
  obtain ⟨hfields, hdocs⟩ := hlevels b hb observed
  rw [← hfields] at hf
  obtain ⟨d, hd, rfl⟩ := List.mem_map.mp hf
  have hd' := hdocs d hd
  rw [hname] at hd'
  have hget := hd' (by decide)
  refine ⟨config, g, hg, (hdocumented _).mpr (by decide), Bool.not_eq_true _ ▸ hdropped, levels, b,
    hb, observed, d, hd, congrArg Prod.snd hname, hget, ?_⟩
  exact Option.some.inj (hget.symm.trans htext)

end ResourceTypes
