import ResourceTypes.Proofs.Build.Decisions
import ResourceTypes.Proofs.Build.Locations

/-! # The registry of ignored fields

A build that succeeds registers the canonical path of each attribute that it reaches and whose path
names the same fields as an ignored entry (`ignoredIn`).  Registration comes first in the visit of
an attribute, so that the paths are put in as the attributes are reached, each before those below
it (`Walk.ignores`); what is done with the attribute afterwards does not matter.

The canonical path that is registered is the one that the location carries.  Both are extended
step by step from the root on, and they agree at every location (`Location.Carried.canonical`). -/

namespace ResourceTypes

open Build

/-! ### Carried locations -/

/-- A location to which fields and elements lead from the root of a kind. -/
inductive Location.Carried (kind : String) : Location → Prop
  | root : Carried kind (.root kind)
  | field {l : Location} (name : String) (h : Carried kind l) :
      Carried kind (l.field (.ofSnake name))
  | element {l : Location} (h : Carried kind l) : Carried kind l.element

namespace Location.Carried

variable {kind : String} {l : Location}

theorem eq_ofPath (h : Carried kind l) : ∃ p, l = .ofPath kind p := by
  induction h with
  | root => exact ⟨.root, root_eq_ofPath kind⟩
  | field name _ ih =>
      obtain ⟨p, rfl⟩ := ih
      exact ⟨p.child name, field_ofPath kind p name⟩
  | element _ ih =>
      obtain ⟨p, rfl⟩ := ih
      exact ⟨p.wildcard, element_ofPath kind p⟩

/-- The canonical path of a location is that of its source path. -/
theorem canonical (h : Carried kind l) : l.canonical = l.source.canonical := by
  obtain ⟨p, rfl⟩ := h.eq_ofPath
  rfl

theorem inside (h : Carried kind l) (a : Attribute) : Carried kind (l.inside a) := by
  unfold Location.inside
  induction a.edges generalizing l with
  | zero => exact h
  | succ n ih => exact ih h.element

end Location.Carried

theorem Walk.carried {attributes : List (String × Attribute)} {l : Location}
    {level level' : Level} {s t : BuildState} {levels : Forest BuiltLevel} {kind : String}
    (h : Walk attributes l level s levels level' t) (hl : Location.Carried kind l) :
    ∀ b ∈ levels.preorder, Location.Carried kind b.location := by
  induction h with
  | nil => simp [Forest.preorder]
  | flat _ _ _ _ _ ih => exact ih hl
  | nested _ _ _ _ _ _ _ _ ihb iho =>
      rw [Forest.preorder, List.forall_mem_cons, List.forall_mem_append]
      exact ⟨(hl.field _).inside _, ihb ((hl.field _).inside _), iho hl⟩

theorem Built.carried {schema : Resource} {config : Config} {symbols : SymbolTable}
    {g : Generated} {levels : Forest BuiltLevel} (h : Built schema config symbols g levels) :
    ∀ b ∈ levels.preorder, Location.Carried config.kind b.location := by
  obtain ⟨-, visits, -, -⟩ := h
  rw [Forest.preorder, List.forall_mem_cons, List.forall_mem_append]
  exact ⟨.root, visits.carried .root, by simp [Forest.preorder]⟩

/-! ### Ignored attributes -/

/-- The canonical paths of the attributes whose paths are ignored, in order. -/
def ignoredIn (l : LateInitializer) (rs : List Reached) : List CanonicalPath :=
  (rs.filter fun r => l.ignoresSource r.path).map fun r => r.path.canonical

@[simp] theorem ignoredIn_nil (l : LateInitializer) : ignoredIn l [] = [] := rfl

@[simp] theorem ignoredIn_append (l : LateInitializer) (rs rs' : List Reached) :
    ignoredIn l (rs ++ rs') = ignoredIn l rs ++ ignoredIn l rs' := by
  simp [ignoredIn]

theorem ignoredIn_cons (l : LateInitializer) (r : Reached) (rs : List Reached) :
    ignoredIn l (r :: rs) =
      (if l.ignoresSource r.path then [r.path.canonical] else []) ++ ignoredIn l rs := by
  unfold ignoredIn
  rw [List.filter_cons]
  split <;> rfl

theorem LateInitializer.ignoresSource_iff {l : LateInitializer} {p : FieldPath} :
    l.ignoresSource p = true ↔ ∃ q ∈ l.ignoredFields, q.fields = p.fields := by
  simp [ignoresSource, FieldPath.sameFields]

theorem LateInitializer.ignoresSource_congr {l l' : LateInitializer}
    (h : l.ignoredFields = l'.ignoredFields) (p : FieldPath) :
    l.ignoresSource p = l'.ignoresSource p := by
  rw [ignoresSource, h, ignoresSource]

theorem mem_ignoredIn {l : LateInitializer} {rs : List Reached} {p : CanonicalPath} :
    p ∈ ignoredIn l rs ↔
      ∃ r ∈ rs, (∃ q ∈ l.ignoredFields, q.fields = r.path.fields) ∧ p = r.path.canonical := by
  simp only [ignoredIn, List.mem_map, List.mem_filter, LateInitializer.ignoresSource_iff]
  constructor
  · rintro ⟨r, ⟨hr, hq⟩, rfl⟩
    exact ⟨r, hr, hq, rfl⟩
  · rintro ⟨r, hr, hq, rfl⟩
    exact ⟨r, ⟨hr, hq⟩, rfl⟩

/-! ### Registered paths -/

/-- Between the states the canonical paths are registered in order, and the ignored fields are
kept. -/
structure Ignores (paths : List CanonicalPath) (s t : BuildState) : Prop where
  fields : t.config.lateInitializer.ignoredFields = s.config.lateInitializer.ignoredFields
  canonical : t.config.lateInitializer.ignoredCanonical =
    s.config.lateInitializer.ignoredCanonical.addAll paths

/-- The lists of ignored fields are the same in both states. -/
def KeepsIgnored (s t : BuildState) : Prop := t.config.lateInitializer = s.config.lateInitializer

theorem keepsIgnored : StateOrder KeepsIgnored := .ofView fun s => s.config.lateInitializer

namespace Ignores

variable {paths paths' : List CanonicalPath} {s t u : BuildState}

theorem of_keeps (h : KeepsIgnored s t) : Ignores [] s t :=
  ⟨congrArg _ h, by rw [h, OrderedSet.addAll_nil]⟩

theorem refl (s : BuildState) : Ignores [] s s := of_keeps rfl

theorem trans (h : Ignores paths s t) (h' : Ignores paths' t u) :
    Ignores (paths ++ paths') s u :=
  ⟨h'.fields.trans h.fields, by rw [h'.canonical, h.canonical, OrderedSet.addAll_append]⟩

end Ignores

namespace Build

variable {s t : BuildState}

theorem ignores_openLevel {l : Location} {level : Level} (h : Returns (openLevel l) s level t) :
    Ignores [] s t :=
  .of_keeps ((keepsIgnored.moves_openLevel (fun _ _ => rfl) l).of_returns h)

theorem ignores_closeLevel {l : Location} {level : Level} {refs : TypeRef × TypeRef}
    (h : Returns (closeLevel l level) s refs t) : Ignores [] s t :=
  .of_keeps ((keepsIgnored.composes.closeLevel (fun _ _ _ _ => rfl) l level).of_returns h)

theorem ignores_placeVariants {site : Site} {variants : List Variant} {level level' : Level}
    (h : Returns (placeVariants site variants level) s level' t) : Ignores [] s t :=
  .of_keeps ((keepsIgnored.composes.placeVariants (fun _ _ _ _ => rfl) (fun _ _ _ => rfl)
    (fun _ _ _ => rfl) variants level).of_returns h)

theorem ignores_registerIgnored {l : Location} (h : Returns (registerIgnored l) s () t) :
    Ignores (if s.config.lateInitializer.ignoresSource l.source then [l.canonical] else [])
      s t := by
  rw [Returns, runFrom_visit, Prod.mk.injEq, Decision.config_visit] at h
  obtain ⟨-, rfl⟩ := h
  exact ⟨rfl, rfl⟩

end Build

/-! ### What a build registers -/

theorem ignores_first {kind name : String} {p : FieldPath} {late : LateInitializer}
    {s t : BuildState} (hs : s.config.lateInitializer.ignoredFields = late.ignoredFields)
    (h : Returns (registerIgnored ((Location.ofPath kind p).field (.ofSnake name))) s () t) :
    Ignores (if late.ignoresSource (p.child name) then [(p.child name).canonical] else []) s t := by
  have hfirst := ignores_registerIgnored h
  rw [Location.field_ofPath, LateInitializer.ignoresSource_congr hs] at hfirst
  exact hfirst

/-- A walk registers the canonical paths of the ignored attributes that it reaches. -/
theorem Walk.ignores {attributes : List (String × Attribute)} {l : Location}
    {level level' : Level} {s t : BuildState} {levels : Forest BuiltLevel} {kind : String}
    {late : LateInitializer} (h : Walk attributes l level s levels level' t) (p : FieldPath)
    (above : List Attribute) (hl : l = .ofPath kind p)
    (hs : s.config.lateInitializer.ignoredFields = late.ignoredFields) :
    Ignores (ignoredIn late (reachedIn attributes p above)) s t := by
  induction h generalizing p above with
  | nil => exact .refl _
  | flat leads _ registered placed _ ih =>
      subst hl
      have hfirst := ignores_first hs registered
      have hplaced := hfirst.trans (ignores_placeVariants placed)
      rw [List.append_nil] at hplaced
      rw [reachedIn_cons_flat _ p above leads, ignoredIn_cons]
      exact hplaced.trans (ih p above rfl (hplaced.fields.trans hs))
  | @nested name a _ _ _ _ _ _ _ _ _ _ _ _ _ _ _ _ _ _ _ leads _ registered opens _ closes
      placed _ ihb iho =>
      subst hl
      have hfirst := ignores_first hs registered
      have hopened := hfirst.trans (ignores_openLevel opens)
      have hbelow := hopened.trans (ihb ((p.child name).inside a) (above ++ [a]) (by simp)
        (hopened.fields.trans hs))
      have hclosed := hbelow.trans (ignores_closeLevel closes)
      have hplaced := hclosed.trans (ignores_placeVariants placed)
      have hall := hplaced.trans (iho p above rfl (hplaced.fields.trans hs))
      rw [reachedIn_cons_nested _ p above leads, ignoredIn_cons, ignoredIn_append]
      simp only [List.append_nil, List.append_assoc] at hall
      exact hall

/-! ### Main statement -/

/-- A build registers the canonical paths of the reached attributes whose paths name the same
fields as an ignored entry, and no others.  The levels are at carried locations, and the canonical
path of every carried location is that of its source path. -/
theorem ignored_of_build {schema : Resource} {config : Config} {symbols : SymbolTable}
    {g : Generated} (h : (build schema config symbols).outcome = .ok g) :
    (build schema config symbols).config.lateInitializer.ignoredCanonical =
        config.lateInitializer.ignoredCanonical.addAll
          (ignoredIn config.lateInitializer schema.reached) ∧
      (∀ p, (build schema config symbols).config.lateInitializer.ignoresCanonical p = true ↔
        config.lateInitializer.ignoresCanonical p = true ∨
          ∃ r ∈ schema.reached,
            (∃ q ∈ config.lateInitializer.ignoredFields, q.fields = r.path.fields) ∧
              p = r.path.canonical) ∧
      (∃ levels, Built schema config symbols g levels ∧
        ∀ b ∈ levels.preorder, Location.Carried config.kind b.location) ∧
      ∀ l, Location.Carried config.kind l → l.canonical = l.source.canonical := by
  obtain ⟨opened, filled, u, v, below, refs, hopen, hw, hclose⟩ := walk_of_build h
  have hopened := ignores_openLevel hopen
  have hroot := Location.root_eq_ofPath config.kind
  have hfilled := hopened.trans (hw.ignores .root [] hroot hopened.fields)
  have hall := hfilled.trans (ignores_closeLevel hclose)
  have hset : (build schema config symbols).config.lateInitializer.ignoredCanonical =
      config.lateInitializer.ignoredCanonical.addAll
        (ignoredIn config.lateInitializer schema.reached) := by
    rw [config_build, hall.canonical, List.append_nil, List.nil_append]
    obtain ⟨attributes⟩ := schema
    rw [Resource.reached, Resource.reachedFrom]
    rfl
  obtain ⟨levels, hb⟩ := built_of_build h
  refine ⟨hset, fun p => ?_, ⟨levels, hb, hb.carried⟩, fun l hl => hl.canonical⟩
  rw [LateInitializer.ignoresCanonical, hset, OrderedSet.contains_addAll, mem_ignoredIn]
  rfl

/-- Host names inside a list that is only observed and sensitive. -/
def hostSchema : Resource :=
  .mk
    [("rule_set", .mk { kind := .list, computed := true, sensitive := true }
      (.resource (.mk [("host_name", .mk { kind := .string, computed := true } .unset)])))]

theorem ignored_of_build_hosts :
    ∃ config g, (build hostSchema config .empty).outcome = .ok g ∧
      config.lateInitializer.ignoredFields =
        [⟨[.field "rule_set", .field "host_name", .wildcard]⟩, ⟨[.field "host_name"]⟩] ∧
      (build hostSchema config .empty).config.lateInitializer.ignoresCanonical
        ⟨["RuleSet", "HostName"]⟩ = true ∧
      (build hostSchema config .empty).config.lateInitializer.ignoresCanonical
        ⟨["RuleSet"]⟩ = false := by
  let config : Config :=
    { name := "k", kind := "K",
      lateInitializer.ignoredFields :=
        [⟨[.field "rule_set", .field "host_name", .wildcard]⟩, ⟨[.field "host_name"]⟩] }
  obtain ⟨g, hg, -⟩ := BuildResult.exists_ok (f := fun g => g.types.length)
    (show (build hostSchema config .empty).outcome.toOption.map _ = some 4 by decide +kernel)
  obtain ⟨-, hmem, -, -⟩ := ignored_of_build hg
  have hhost := (hmem ⟨["RuleSet", "HostName"]⟩).mpr (.inr (by decide +kernel))
  have hrule := mt (hmem ⟨["RuleSet"]⟩).mp (by decide +kernel)
  exact ⟨config, g, hg, rfl, hhost, Bool.not_eq_true _ ▸ hrule⟩

end ResourceTypes
