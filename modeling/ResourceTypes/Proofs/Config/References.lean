import ResourceTypes.Config
import ResourceTypes.Proofs.OrderedMap
import ResourceTypes.Proofs.Path.Reading
import ResourceTypes.Proofs.Text.Unambiguous

/-! # The reference of a path

The keys of the references of a configuration are paths, and several of them may differ in
wildcards only.  `FieldPath.Before` orders them by the first segment in which they differ, with
every field before the wildcard; it is the order in which a configuration lists its keys
(`FieldPath.compare_lt_iff`).  A path has the reference of the least key that names the same fields
(`referenceFor?_eq_some_iff`).

Of the paths that name the same fields the one without wildcards is the least
(`FieldPath.withoutWildcards_least`), so that its reference is found whatever other keys there are.
Paths that were read name the same fields when these are the same joined by dots
(`FieldPath.collapsed_inj`), as no name has a dot in it or is empty. -/

namespace ResourceTypes

open Text

/-! ### The order of paths -/

/-- Fields by name, and every field before the wildcard. -/
inductive Segment.Before : Segment → Segment → Prop
  | fields {a b : String} (less : a < b) : Before (.field a) (.field b)
  | wildcard (a : String) : Before (.field a) .wildcard

/-- By the first segment in which the paths differ; a path comes before the paths that go on from
it. -/
def FieldPath.Before (p q : FieldPath) : Prop := List.Lex Segment.Before p.segments q.segments

theorem Segment.compare_lt_iff {s t : Segment} :
    compare s t = .lt ↔ s.Before t := by
  constructor
  · intro h
    cases s with
    | wildcard => cases t <;> cases h
    | field a =>
        cases t with
        | wildcard => exact .wildcard a
        | field b => exact .fields (compareOfLessAndEq_eq_lt.mp h)
  · rintro (⟨less⟩ | _)
    · exact compareOfLessAndEq_eq_lt.mpr less
    · rfl

theorem compare_list_lt_iff {α : Type} [Ord α] [Std.LawfulEqOrd α] {r : α → α → Prop}
    (hr : ∀ {a b : α}, compare a b = .lt ↔ r a b) {l m : List α} :
    compare l m = .lt ↔ List.Lex r l m := by
  induction l generalizing m with
  | nil =>
      cases m with
      | nil => exact iff_of_false Ordering.noConfusion List.not_lex_nil
      | cons b m => exact iff_of_true rfl .nil
  | cons a l ih =>
      cases m with
      | nil => exact iff_of_false Ordering.noConfusion List.not_lex_nil
      | cons b m =>
          rw [List.compare_cons_cons]
          cases hab : compare a b with
          | lt => exact iff_of_true rfl (.rel (hr.mp hab))
          | eq =>
              obtain rfl := Std.LawfulEqOrd.eq_of_compare hab
              refine ih.trans ⟨.cons, fun h => ?_⟩
              cases h with
              | rel h => exact absurd rfl (KeyOrder.ne_of_lt (hr.mpr h))
              | cons h => exact h
          | gt =>
              refine iff_of_false Ordering.noConfusion fun h => ?_
              cases h with
              | rel h => simp [hr.mpr h] at hab
              | cons h => simp [Std.compare_self] at hab

namespace FieldPath

/-- Paths are compared by the order of segments. -/
theorem compare_lt_iff {p q : FieldPath} : compare p q = .lt ↔ p.Before q :=
  compare_list_lt_iff Segment.compare_lt_iff

theorem sameFields_iff {p q : FieldPath} : p.sameFields q = true ↔ p.fields = q.fields :=
  beq_iff_eq

/-! ### Paths without wildcards -/

/-- The path with its wildcards left out. -/
def withoutWildcards (p : FieldPath) : FieldPath := ⟨p.segments.filter (· ≠ .wildcard)⟩

theorem segments_withoutWildcards (p : FieldPath) :
    p.withoutWildcards.segments = p.fields.map .field := by
  obtain ⟨segments⟩ := p
  simp only [withoutWildcards, fields]
  induction segments with
  | nil => rfl
  | cons s rest ih =>
      cases s with
      | field name =>
          have hname : (Segment.field name).name? = some name := rfl
          rw [List.filter_cons_of_pos (by simp), List.filterMap_cons_some hname, List.map_cons, ih]
      | wildcard => rw [List.filter_cons_of_neg (by simp), List.filterMap_cons_none rfl, ih]

theorem withoutWildcards_eq_iff {p q : FieldPath} :
    p.withoutWildcards = q.withoutWildcards ↔ p.fields = q.fields := by
  have same : p.withoutWildcards = q.withoutWildcards ↔
      p.withoutWildcards.segments = q.withoutWildcards.segments :=
    ⟨congrArg segments, fun h => congrArg mk h⟩
  rw [same, segments_withoutWildcards, segments_withoutWildcards]
  exact List.map_inj_right fun _ _ => Segment.field.inj

theorem fields_withoutWildcards (p : FieldPath) : p.withoutWildcards.fields = p.fields := by
  rw [fields, segments_withoutWildcards, List.filterMap_map]
  exact List.filterMap_some

/-- Of the paths that name the same fields the one without wildcards comes first. -/
theorem withoutWildcards_least {p q : FieldPath} (h : p.fields = q.fields) :
    p = q.withoutWildcards ∨ q.withoutWildcards.Before p := by
  rw [← withoutWildcards_eq_iff.mpr h]
  clear h
  obtain ⟨segments⟩ := p
  simp only [withoutWildcards, Before, mk.injEq]
  induction segments with
  | nil => exact .inl rfl
  | cons s rest ih =>
      cases s with
      | field name =>
          rw [List.filter_cons_of_pos (by simp)]
          exact ih.imp (congrArg _) .cons
      | wildcard =>
          -- A field that follows stands where the wildcard was, or the path has ended.
          rw [List.filter_cons_of_neg (by simp)]
          cases hrest : rest.filter (· ≠ .wildcard) with
          | nil => exact .inr .nil
          | cons t kept =>
              have ht : t ∈ rest.filter (· ≠ .wildcard) := hrest ▸ List.mem_cons_self
              cases t with
              | field name => exact .inr (.rel (.wildcard name))
              | wildcard => simp at ht

/-! ### Names joined by dots -/

theorem pieces_collapsed {p : FieldPath} (hne : p.fields ≠ [])
    (h : ∀ n ∈ p.fields, Spellable n) :
    pieces '.' p.collapsed.toList = p.fields.map String.toList := by
  obtain ⟨first, others, hfields⟩ := List.exists_cons_of_ne_nil hne
  rw [hfields, List.forall_mem_cons] at h
  rw [collapsed, String.toList_ofList, hfields, List.map_cons, intercalate_cons,
    pieces_join h.1.no_dot (List.forall_mem_map.mpr fun n hn => (h.2 n hn).no_dot)]

theorem collapsed_eq_empty_iff {p : FieldPath} (h : ∀ n ∈ p.fields, Spellable n) :
    p.collapsed = "" ↔ p.fields = [] := by
  rw [collapsed]
  cases hfields : p.fields with
  | nil => exact iff_of_true rfl rfl
  | cons first others =>
      have hfirst := (h first (hfields ▸ List.mem_cons_self)).ne_empty
      simp [intercalate_cons, hfirst]

/-- Names that show where they end are told from the names joined by dots. -/
theorem collapsed_inj {p q : FieldPath} (hp : ∀ n ∈ p.fields, Spellable n)
    (hq : ∀ n ∈ q.fields, Spellable n) : p.collapsed = q.collapsed ↔ p.fields = q.fields := by
  refine ⟨fun h => ?_, fun h => by rw [collapsed, h, collapsed]⟩
  by_cases hempty : p.fields = []
  · rw [hempty, (collapsed_eq_empty_iff hq).mp (h ▸ (collapsed_eq_empty_iff hp).mpr hempty)]
  · have hne : q.fields ≠ [] := by
      rwa [← (collapsed_eq_empty_iff hq).ne, ← h, (collapsed_eq_empty_iff hp).ne]
    have hpieces := pieces_collapsed hempty hp
    rw [h, pieces_collapsed hne hq] at hpieces
    exact (List.map_inj_right fun _ _ => String.toList_inj.mp).mp hpieces.symm

end FieldPath

namespace Config

/-! ### Main statement -/

/-- The key `k` names the fields of the path, and comes before all other keys that do. -/
structure LeastKey (config : Config) (path k : FieldPath) : Prop where
  registered : config.references.contains k = true
  fields : k.fields = path.fields
  least : ∀ j, config.references.contains j = true → j.fields = path.fields → j = k ∨ k.Before j

theorem referenceFor?_eq_some_iff {config : Config} {path : FieldPath} {r : Reference} :
    config.referenceFor? path = some r ↔
      ∃ k, config.LeastKey path k ∧ config.references.get? k = some r := by
  have hfind := fun e => OrderedMap.find?_eq_some_iff (m := config.references) (e := e)
    fun k => k.sameFields path
  simp only [FieldPath.sameFields_iff, FieldPath.compare_lt_iff] at hfind
  simp only [referenceFor?, Option.map_eq_some_iff, hfind]
  constructor
  · rintro ⟨⟨k, r⟩, ⟨hget, hfields, hleast⟩, rfl⟩
    exact ⟨k, ⟨by rw [OrderedMap.contains, hget]; rfl, hfields, hleast⟩, hget⟩
  · rintro ⟨k, hk, hget⟩
    exact ⟨(k, r), ⟨hget, hk.fields, hk.least⟩, rfl⟩

theorem referenceFor?_eq_none_iff {config : Config} {path : FieldPath} :
    config.referenceFor? path = none ↔
      ∀ k, config.references.contains k = true → k.fields ≠ path.fields := by
  simp only [referenceFor?, Option.map_eq_none_iff, List.find?_eq_none, FieldPath.sameFields_iff,
    OrderedMap.contains_iff]
  constructor
  · rintro h _ ⟨e, he, rfl⟩
    exact h e he
  · exact fun h e he => h e.1 ⟨e, he, rfl⟩

/-- A path has the reference of the least key that names the same fields, and none when there is no
such key.  Its wildcards do not matter, and neither do those of the keys when one of these is the
path without wildcards.  Paths that were read name the same fields when they are the same with their
wildcards collapsed. -/
theorem referenceFor?_least (config : Config) (path : FieldPath) :
    (∀ r, config.referenceFor? path = some r ↔
      ∃ k, config.LeastKey path k ∧ config.references.get? k = some r) ∧
    (config.referenceFor? path = none ↔
      ∀ k, config.references.contains k = true → k.fields ≠ path.fields) ∧
    (∀ path', path'.withoutWildcards = path.withoutWildcards →
      config.referenceFor? path' = config.referenceFor? path) ∧
    (∀ r, config.references.get? path.withoutWildcards = some r →
      config.referenceFor? path = some r) ∧
    ∀ text text' p q, FieldPath.parse text = .ok p → FieldPath.parse text' = .ok q →
      (p.sameFields q = true ↔ p.collapsed = q.collapsed) := by
  refine ⟨fun r => referenceFor?_eq_some_iff, referenceFor?_eq_none_iff, fun path' h => ?_,
    fun r h => ?_, fun text text' p q hp hq => ?_⟩
  · have hfields := FieldPath.withoutWildcards_eq_iff.mp h
    simp only [referenceFor?, FieldPath.sameFields, hfields]
  · refine referenceFor?_eq_some_iff.mpr ⟨path.withoutWildcards, ⟨?_, ?_, fun j _ hj => ?_⟩, h⟩
    · rw [OrderedMap.contains, h]
      rfl
    · exact path.fields_withoutWildcards
    · exact FieldPath.withoutWildcards_least hj
  · rw [FieldPath.sameFields_iff]
    exact (FieldPath.collapsed_inj (fun n hn => (FieldPath.spellable_of_parse hp n hn).1)
      fun n hn => (FieldPath.spellable_of_parse hq n hn).1).symm

/-- A configuration with three keys that name the same fields, the first of which in order is the
one without wildcards. -/
def ruleConfig : Config where
  name := "n"
  kind := "K"
  references :=
    .ofList
      [(⟨[.field "rule", .wildcard, .field "key"]⟩, ⟨"Starred", none, none, none⟩),
       (⟨[.wildcard, .field "rule", .field "key"]⟩, ⟨"Leading", none, none, none⟩),
       (⟨[.field "rule", .field "key"]⟩, ⟨"Plain", none, none, none⟩)]

/-- The key without wildcards is found for paths with wildcards at different places. -/
theorem referenceFor?_least_starred :
    ∃ p q, FieldPath.parse "rule[*].key[*]" = .ok p ∧ FieldPath.parse " rule.*.*.key" = .ok q ∧
      p.withoutWildcards = q.withoutWildcards ∧
      ruleConfig.references.get? q.withoutWildcards = some ⟨"Plain", none, none, none⟩ ∧
      ruleConfig.referenceFor? q = some ⟨"Plain", none, none, none⟩ ∧
      ruleConfig.referenceFor? p = some ⟨"Plain", none, none, none⟩ ∧
      (p.sameFields q = true ↔ p.collapsed = q.collapsed) := by
  have hp : FieldPath.parse "rule[*].key[*]" =
      .ok ⟨[.field "rule", .wildcard, .field "key", .wildcard]⟩ := by decide +kernel
  have hq : FieldPath.parse " rule.*.*.key" =
      .ok ⟨[.field "rule", .wildcard, .wildcard, .field "key"]⟩ := by decide +kernel
  have hplain : ruleConfig.references.get?
      (FieldPath.withoutWildcards ⟨[.field "rule", .wildcard, .wildcard, .field "key"]⟩) =
        some ⟨"Plain", none, none, none⟩ := by decide +kernel
  obtain ⟨-, -, hstarred, hleast, hread⟩ :=
    referenceFor?_least ruleConfig ⟨[.field "rule", .wildcard, .wildcard, .field "key"]⟩
  have hfound := hleast _ hplain
  exact ⟨_, _, hp, hq, by decide, hplain, hfound, (hstarred _ (by decide)).trans hfound,
    hread _ _ _ _ hp hq⟩

end Config

end ResourceTypes
