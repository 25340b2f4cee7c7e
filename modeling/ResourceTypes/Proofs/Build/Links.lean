import Mathlib.Data.List.Perm.Basic
import ResourceTypes.Proofs.Build.Mentions

/-! # Links between generated types

A build lays its types out in levels, two for each resource (`LaidOut`), and links the levels by
name (`LinkedLevels`): names are distinct, and a level mentions what the levels right below it
are mentioned for.  Every level but the root is below one level only, so all mentions together
are a rearrangement of what the levels are mentioned for (`LinkedLevels.mentions_perm`) and none
occurs twice.  `mentions_closed` says that the links lead to earlier types, each from a level to
one right below it. -/

namespace ResourceTypes

open Build

/-- The types of an output in levels, one for the schema and one for each nested resource. -/
structure LaidOut (schema : Resource) (kind : String) (g : Generated)
    (levels : Forest BuiltLevel) : Prop where
  holders : levels.map BuiltLevel.holder = .node none (schema.nested.map some) .nil
  chains : levels.map BuiltLevel.chain = schema.chains kind
  types : g.types = levels.postorder.flatMap BuiltLevel.types

/-- Levels whose types are linked by name. -/
structure LinkedLevels (levels : Forest BuiltLevel) : Prop where
  names : (levels.preorder.flatMap fun b => b.names.both).Nodup
  leads : ∀ b ∈ levels.preorder, ∀ v ∈ b.holder, ∃ r, v.2.nested? = some r
  linked : ∀ v ∈ levels.families, Linked v.1 v.2

theorem LaidOut.mem_holder {schema : Resource} {kind : String} {g : Generated}
    {levels : Forest BuiltLevel} (h : LaidOut schema kind g levels) {v : String × Attribute} :
    (∃ b ∈ levels.preorder, v ∈ b.holder) ↔ v ∈ schema.nested.preorder := by
  have hpre : levels.preorder.map BuiltLevel.holder = none :: schema.nested.preorder.map some := by
    rw [← Forest.preorder_map, h.holders, Forest.preorder, Forest.preorder_map, Forest.preorder,
      List.append_nil]
  have hmem := congrArg (fun l => some v ∈ l) hpre
  simpa using hmem

theorem LaidOut.holder_of_root {schema : Resource} {kind : String} {g : Generated}
    {levels : Forest BuiltLevel} (h : LaidOut schema kind g levels) {b : BuiltLevel}
    (hb : b ∈ levels.roots) : b.holder = none := by
  have hroots : levels.roots.map BuiltLevel.holder = [none] := by
    rw [← Forest.roots_map, h.holders]
    rfl
  have hmem := List.mem_map_of_mem (f := BuiltLevel.holder) hb
  rw [hroots] at hmem
  exact List.mem_singleton.mp hmem

/-- The types are those of the levels for the two worlds. -/
theorem LaidOut.mem_types {schema : Resource} {kind : String} {g : Generated}
    {levels : Forest BuiltLevel} (h : LaidOut schema kind g levels) {t : TypeDecl} :
    t ∈ g.types ↔ ∃ b ∈ levels.preorder, ∃ observed, t = b.typeOf observed := by
  simp only [h.types, List.mem_flatMap, Forest.mem_postorder, BuiltLevel.types_eq, List.mem_cons,
    List.not_mem_nil, or_false, Bool.exists_bool]

theorem LaidOut.mem_mentions {schema : Resource} {kind : String} {g : Generated}
    {levels : Forest BuiltLevel} (h : LaidOut schema kind g levels) {b : BuiltLevel}
    (hb : b ∈ levels.preorder) {observed : Bool} {x : String}
    (hx : x ∈ mentions (b.typeOf observed).fields) :
    x ∈ mentions (g.types.flatMap TypeDecl.fields) := by
  rw [mentions_flatMap]
  exact List.mem_flatMap_of_mem (h.mem_types.mpr ⟨b, hb, observed, rfl⟩) hx

namespace Built

variable {schema : Resource} {config : Config} {symbols : SymbolTable} {g : Generated}
  {levels : Forest BuiltLevel}

theorem laidOut (h : Built schema config symbols g levels) :
    LaidOut schema config.kind g levels :=
  ⟨h.holders, h.chains, h.types⟩

theorem linked (h : Built schema config symbols g levels) :
    ∀ v ∈ levels.families, Linked v.1 v.2 := by
  obtain ⟨opens, visits, -, -⟩ := h
  rw [Forest.families, Forest.families, List.append_nil]
  rintro v (_ | ⟨_, hv⟩)
  · exact Walk.linked_of_opens _ opens visits
  · exact visits.linked v hv

theorem linkedLevels (h : Built schema config symbols g levels) : LinkedLevels levels := by
  refine ⟨?_, fun b hb v hv => ?_, h.linked⟩
  · have hnodup := h.namedBy.nodup.1
    rw [emittedNames, Forest.postorder_map, List.flatMap_map] at hnodup
    exact (levels.postorder_perm_preorder.flatMap_right _).nodup_iff.mp hnodup
  · have hmem := h.laidOut.mem_holder.mp ⟨b, hb, hv⟩
    obtain ⟨attributes⟩ := schema
    rw [Resource.nested] at hmem
    exact nested?_of_mem_nestedIn v hmem

theorem roots (h : Built schema config symbols g levels) :
    ∃ b, levels.roots = [b] ∧ g.forProviderType? = some (b.typeOf false) ∧
      g.atProviderType? = some (b.typeOf true) := by
  obtain ⟨hfor, hat⟩ := h.handles
  have htypes := h.types
  obtain ⟨-, -, -, -⟩ := h
  refine ⟨_, rfl, ?_⟩
  rw [Forest.postorder, Forest.postorder, List.flatMap_append, List.flatMap_singleton,
    BuiltLevel.types_eq] at htypes
  have hlen := congrArg List.length htypes
  rw [List.length_append, List.length_cons, List.length_singleton] at hlen
  rw [Generated.forProviderType?, Generated.atProviderType?, htypes,
    List.getElem?_append_right (by omega), List.getElem?_append_right (by omega)]
  constructor
  · rw [show g.forProvider - _ = 0 by omega]
    rfl
  · rw [show g.atProvider - _ = 1 by omega]
    rfl

end Built

/-! ### Lists of distinct names -/

section lists

variable {α β : Type} {l : List α}

theorem nodup_flatMap_of_subset {f f' : α → List β} (h : (l.flatMap f).Nodup)
    (hnodup : ∀ a ∈ l, (f' a).Nodup) (hsub : ∀ a ∈ l, f' a ⊆ f a) : (l.flatMap f').Nodup := by
  rw [List.nodup_flatMap] at h ⊢
  refine ⟨hnodup, h.2.imp_of_mem fun {a b} ha hb hab => ?_⟩
  exact List.disjoint_of_subset_left (hsub a ha) (List.disjoint_of_subset_right (hsub b hb) hab)

theorem eq_of_mem_flatMap {f : α → List β} (h : (l.flatMap f).Nodup) {a b : α} (ha : a ∈ l)
    (hb : b ∈ l) {x : β} (hxa : x ∈ f a) (hxb : x ∈ f b) : a = b := by
  induction l with
  | nil => cases ha
  | cons c rest ih =>
      rw [List.flatMap_cons] at h
      obtain ⟨-, hrest, hdisj⟩ := List.nodup_append'.mp h
      have hfar : ∀ d ∈ rest, x ∈ f d → x ∉ f c := fun d hd hxd hxc =>
        hdisj hxc (List.mem_flatMap_of_mem hd hxd)
      rcases List.mem_cons.mp ha with rfl | ha' <;> rcases List.mem_cons.mp hb with rfl | hb'
      · rfl
      · exact absurd hxa (hfar b hb' hxb)
      · exact absurd hxb (hfar a ha' hxa)
      · exact ih hrest ha' hb'

theorem exists_index_lt {a b : α} {i : Nat} (hl : l.Nodup) (h : [a, b].Sublist l)
    (hi : l[i]? = some b) : ∃ k < i, l[k]? = some a := by
  obtain ⟨before, rest, rfl, ha, hb⟩ := List.cons_sublist_iff.mp h
  obtain ⟨k, hk⟩ := List.mem_iff_getElem?.mp ha
  have hlt : k < before.length := (List.getElem?_eq_some_iff.mp hk).1
  refine ⟨k, ?_, by rw [List.getElem?_append_left hlt, hk]⟩
  by_contra hle
  have hib : before[i]? = some b := by
    rw [← hi, List.getElem?_append_left (by omega)]
  exact List.disjoint_of_nodup_append hl (List.mem_of_getElem? hib) (List.singleton_sublist.mp hb)

end lists

/-! ### Linked levels -/

namespace LinkedLevels

variable {levels : Forest BuiltLevel}

theorem nodup_postorder (h : LinkedLevels levels) : levels.postorder.Nodup := by
  rw [levels.postorder_perm_preorder.nodup_iff]
  refine (List.nodup_flatMap.mp h.names).2.imp fun {a b} hab hne => ?_
  subst hne
  exact hab List.mem_cons_self List.mem_cons_self

theorem parameters_ne_observation (h : LinkedLevels levels) {b : BuiltLevel}
    (hb : b ∈ levels.preorder) : b.names.parameters ≠ b.names.observation := by
  simpa [TypeNames.both] using (List.nodup_flatMap.mp h.names).1 b hb

theorem mentioned_nodup (h : LinkedLevels levels) {b : BuiltLevel} (hb : b ∈ levels.preorder) :
    (b.mentioned false ++ b.mentioned true).Nodup ∧
      b.mentioned false ++ b.mentioned true ⊆ b.names.both := by
  cases hh : b.holder with
  | none => simp [BuiltLevel.mentioned, hh]
  | some v =>
      obtain ⟨r, hr⟩ := h.leads b hb v hh
      simp only [BuiltLevel.mentioned, hh]
      exact Attribute.mentioned_nodup hr (h.parameters_ne_observation hb)

theorem mentioned_subset (h : LinkedLevels levels) {b : BuiltLevel} (hb : b ∈ levels.preorder)
    (observed : Bool) : b.mentioned observed ⊆ b.names.both := by
  refine List.Subset.trans ?_ (h.mentioned_nodup hb).2
  cases observed
  · exact List.subset_append_left _ _
  · exact List.subset_append_right _ _

/-- All mentions are a rearrangement of what the levels below others are mentioned for. -/
theorem mentions_perm (h : LinkedLevels levels) :
    (mentions ((levels.postorder.flatMap BuiltLevel.types).flatMap TypeDecl.fields)).Perm
      ((levels.families.flatMap Prod.snd).flatMap fun c =>
        c.mentioned false ++ c.mentioned true) := by
  have hlevel (b : BuiltLevel) : mentions (b.types.flatMap TypeDecl.fields) =
      mentions (b.level.fieldsOf false) ++ mentions (b.level.fieldsOf true) := by
    rw [← mentions_append, BuiltLevel.types_eq]
    simp [BuiltLevel.typeOf]
  rw [List.flatMap_assoc, mentions_flatMap, List.flatMap_congr fun b _ => hlevel b,
    List.flatMap_assoc]
  refine (levels.postorder_perm_preorder.flatMap_right _).trans ?_
  rw [← levels.map_fst_families, List.flatMap_map]
  refine List.Perm.flatMap_left _ fun v hv => ?_
  rw [h.linked v hv false, h.linked v hv true]
  exact List.flatMap_append_perm v.2 _ _

theorem nodup_mentions (h : LinkedLevels levels) :
    (mentions ((levels.postorder.flatMap BuiltLevel.types).flatMap TypeDecl.fields)).Nodup := by
  rw [h.mentions_perm.nodup_iff]
  have hall : (levels.preorder.flatMap fun c => c.mentioned false ++ c.mentioned true).Nodup :=
    nodup_flatMap_of_subset h.names (fun b hb => (h.mentioned_nodup hb).1)
      fun b hb => (h.mentioned_nodup hb).2
  rw [← (levels.roots_append_children_perm.flatMap_right _).nodup_iff, List.flatMap_append] at hall
  exact (List.nodup_append'.mp hall).2.1

theorem root_not_mentioned (h : LinkedLevels levels) {b : BuiltLevel} (hb : b ∈ levels.roots)
    {x : String} (hx : x ∈ b.names.both) :
    x ∉ mentions ((levels.postorder.flatMap BuiltLevel.types).flatMap TypeDecl.fields) := by
  intro hm
  obtain ⟨c, hc, hxc⟩ := List.mem_flatMap.mp (h.mentions_perm.mem_iff.mp hm)
  have hmem : c ∈ levels.preorder := Forest.mem_preorder_iff.mpr (.inr (Forest.mem_children.mp hc))
  have hnames := h.names
  rw [← (levels.roots_append_children_perm.flatMap_right _).nodup_iff,
    List.flatMap_append] at hnames
  exact List.disjoint_of_nodup_append hnames (List.mem_flatMap_of_mem hb hx)
    (List.mem_flatMap_of_mem hc ((h.mentioned_nodup hmem).2 hxc))

theorem exists_child (h : LinkedLevels levels) {p : BuiltLevel} (hp : p ∈ levels.preorder)
    {observed : Bool} {x : String} (hx : x ∈ mentions (p.level.fieldsOf observed)) :
    ∃ c, levels.IsChild p c ∧ x ∈ c.mentioned observed := by
  rw [← levels.map_fst_families] at hp
  obtain ⟨⟨p, children⟩, hv, rfl⟩ := List.mem_map.mp hp
  rw [h.linked _ hv] at hx
  obtain ⟨c, hc, hxc⟩ := List.mem_flatMap.mp hx
  exact ⟨c, ⟨children, hv, hc⟩, hxc⟩

/-- What a level mentions is a name of an earlier level right below it. -/
theorem exists_earlier_child (h : LinkedLevels levels) {p : BuiltLevel} {i : Nat}
    (hp : levels.postorder[i]? = some p) {observed : Bool} {x : String}
    (hx : x ∈ mentions (p.level.fieldsOf observed)) :
    ∃ k < i, ∃ c, levels.postorder[k]? = some c ∧ levels.IsChild p c ∧ x ∈ c.names.both := by
  obtain ⟨c, hchild, hxc⟩ :=
    h.exists_child (Forest.mem_postorder.mp (List.mem_of_getElem? hp)) hx
  obtain ⟨k, hk, hkc⟩ := exists_index_lt h.nodup_postorder hchild.sublist_postorder hp
  exact ⟨k, hk, c, hkc, hchild, h.mentioned_subset hchild.mem_preorder _ hxc⟩

end LinkedLevels

/-! ### Main statement -/

/-- Every type that a field of type `i` mentions is one type `j` before it, of a level right below
that of type `i`; no type is mentioned twice, and the root types are not mentioned. -/
theorem mentions_closed {schema : Resource} {config : Config} {symbols : SymbolTable}
    {g : Generated} (h : (build schema config symbols).outcome = .ok g) :
    ∃ levels, LaidOut schema config.kind g levels ∧
      (∀ i t, g.types[i]? = some t → ∀ x ∈ mentions t.fields,
        ∃ j < i, ∃ u, g.types[j]? = some u ∧ u.name = x ∧
          (∀ k v, g.types[k]? = some v → v.name = x → k = j) ∧
          ∃ p c, levels.postorder[i / 2]? = some p ∧ levels.postorder[j / 2]? = some c ∧
            levels.IsChild p c) ∧
      (mentions (g.types.flatMap TypeDecl.fields)).Nodup ∧
      ∃ p o, g.forProviderType? = some p ∧ g.atProviderType? = some o ∧
        p.name ∉ mentions (g.types.flatMap TypeDecl.fields) ∧
        o.name ∉ mentions (g.types.flatMap TypeDecl.fields) := by
  obtain ⟨levels, hb⟩ := built_of_build h
  have hl := hb.linkedLevels
  have hnames : (g.types.map TypeDecl.name).Nodup := hb.map_name_types ▸ hb.namedBy.nodup.1
  refine ⟨levels, hb.laidOut, fun i t ht x hx => ?_, ?_, ?_⟩
  · rw [hb.types, getElem?_types, Option.map_eq_some_iff] at ht
    obtain ⟨p, hp, rfl⟩ := ht
    obtain ⟨k, hk, c, hkc, hchild, hxc⟩ := hl.exists_earlier_child hp hx
    obtain ⟨observed, rfl⟩ := TypeNames.mem_both.mp hxc
    have hj : g.types[2 * k + observed.toNat]? = some (c.typeOf observed) := by
      rw [hb.types, getElem?_types_of_level hkc]
    have hbit := observed.toNat_lt
    refine ⟨2 * k + observed.toNat, by omega, c.typeOf observed, hj, rfl,
      fun m v hm hvm => ?_, p, c, hp, ?_, hchild⟩
    · have hlt : m < g.types.length := (List.getElem?_eq_some_iff.mp hm).1
      refine (List.getElem?_inj (by simpa using hlt) hnames).mp ?_
      rw [List.getElem?_map, List.getElem?_map, hm, hj, Option.map_some, Option.map_some, hvm]
      rfl
    · have hhalf : (2 * k + observed.toNat) / 2 = k := by omega
      rw [hhalf, hkc]
  · rw [hb.types]
    exact hl.nodup_mentions
  · obtain ⟨b, hroots, hfor, hat⟩ := hb.roots
    have hroot : b ∈ levels.roots := hroots ▸ List.mem_singleton_self b
    rw [hb.types]
    exact ⟨_, _, hfor, hat, hl.root_not_mentioned hroot (TypeNames.mem_both.mpr ⟨false, rfl⟩),
      hl.root_not_mentioned hroot (TypeNames.mem_both.mpr ⟨true, rfl⟩)⟩

theorem mentions_closed_crossed :
    ∃ g levels, (build crossedSchema' { name := "k", kind := "K" } crossedTable).outcome = .ok g ∧
      LaidOut crossedSchema' "K" g levels ∧
      g.types.map (fun t => (t.name, mentions t.fields)) =
        [("ABParameters", []), ("BObservation", []), ("AParameters", []),
          ("AObservation", ["BObservation", "ABParameters"]), ("KABParameters", []),
          ("ABObservation", []), ("KParameters_2", ["AParameters"]),
          ("KObservation", ["AObservation", "ABObservation"])] ∧
      (mentions (g.types.flatMap TypeDecl.fields)).Nodup := by
  obtain ⟨g, hg, hmentions⟩ := BuildResult.exists_ok
    (f := fun g => g.types.map fun t => (t.name, mentions t.fields))
    (show (build crossedSchema' { name := "k", kind := "K" } crossedTable).outcome.toOption.map _ =
      some [("ABParameters", []), ("BObservation", []), ("AParameters", []),
        ("AObservation", ["BObservation", "ABParameters"]), ("KABParameters", []),
        ("ABObservation", []), ("KParameters_2", ["AParameters"]),
        ("KObservation", ["AObservation", "ABObservation"])] by decide +kernel)
  obtain ⟨levels, hlaid, -, hnodup, -⟩ := mentions_closed hg
  exact ⟨g, levels, hg, hlaid, hmentions, hnodup⟩

end ResourceTypes
