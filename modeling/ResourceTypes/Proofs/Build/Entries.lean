import ResourceTypes.Proofs.Build.Effects
import ResourceTypes.Proofs.Build.Identifiers
import ResourceTypes.Proofs.Build.Trails
import ResourceTypes.Proofs.SymbolTable.Exhaustion

/-! # The levels that a build enters

A build enters the levels of its schema in pre-order, and each of them takes its two names from the
table.  `Enters x chains` says that `x` names the levels of these chains in this order: all of them
when it succeeds, and those up to some place when it fails.  When it fails because names are
exhausted, it is the next level that is refused, in the table that the others have left
(`BuildError.Refuses`).

With the bound on levels before an exhausted one this becomes a bound on whole builds: a chain of
`k` names is refused only after `k + 8` levels, and no build of at most ten levels exhausts names
(`exhausted_after_levels`). -/

namespace ResourceTypes

open Build

/-- The step asks for one of the two names of the level of a chain. -/
def BuildStep.AsksFor (chain : List String) (step : BuildStep) : Prop :=
  step = .parametersName (".".intercalate chain) ∨ step = .observationName (".".intercalate chain)

/-- The error says that a table has no name for the level of a chain. -/
structure BuildError.Refuses (t : SymbolTable) (chain : List String) (e : BuildError) : Prop where
  exhausted : ∃ name, e.rootCause = .nameExhausted name ∧
    t.nameLevel chain = .error (.exhausted name)
  asks : ∃ outer step, e.steps = outer ++ [step] ∧ step.AsksFor chain

theorem BuildError.Refuses.context {t : SymbolTable} {chain : List String} {e : BuildError}
    (h : e.Refuses t chain) (step : BuildStep) : (BuildError.context step e).Refuses t chain where
  exhausted := h.exhausted
  asks := by
    obtain ⟨outer, inner, hsteps, hasks⟩ := h.asks
    exact ⟨step :: outer, inner, by rw [steps, hsteps, List.cons_append], hasks⟩

namespace Build

variable {α β : Type}

/-- The levels of the chains are named up to the outcome of a run. -/
inductive Entered (chains : List (List String)) (s : BuildState) :
    Except BuildError α × BuildState → Prop
  | all {a : α} {t : BuildState} {names : List TypeNames}
      (named : s.symbols.nameLevels chains = .ok (names, t.symbols)) :
      Entered chains s (.ok a, t)
  | part {e : BuildError} {t : BuildState} {entered left : List (List String)}
      {names : List TypeNames} (split : chains = entered ++ left)
      (named : s.symbols.nameLevels entered = .ok (names, t.symbols))
      (next : e.rootCause.NamesExhausted →
        ∃ chain later, left = chain :: later ∧ e.Refuses t.symbols chain) :
      Entered chains s (.error e, t)

/-- A failure that keeps the table leaves all levels unentered; when names are exhausted, it is the
first of them that is refused. -/
theorem Entered.none {chains : List (List String)} {s t : BuildState} {e : BuildError}
    (keeps : t.symbols = s.symbols)
    (next : e.rootCause.NamesExhausted →
      ∃ chain later, chains = chain :: later ∧ e.Refuses t.symbols chain) :
    Entered (α := α) chains s (.error e, t) :=
  .part (List.nil_append chains).symm (congrArg _ (congrArg _ keeps.symm)) next

/-- From every state the computation enters the levels of the chains in order. -/
def Enters (x : Build α) (chains : List (List String)) : Prop := ∀ s, Entered chains s (runFrom x s)

/-! ### Sequences -/

section sequences

variable {x : Build α} {f : α → Build β} {chains more : List (List String)}

theorem enters_throw {e : BuildError} (h : ¬ e.rootCause.NamesExhausted) :
    Enters (throw e : Build α) chains :=
  fun _ => .none rfl fun exhausted => absurd exhausted h

theorem enters_bind (hx : Enters x chains) (hf : ∀ a, Enters (f a) more) :
    Enters (x >>= f) (chains ++ more) := by
  intro s
  have hs := hx s
  rw [runFrom_bind]
  rcases hr : runFrom x s with ⟨e | a, t⟩ <;> rw [hr] at hs
  · obtain - | ⟨rfl, named, next⟩ := hs
    refine .part (List.append_assoc ..) named fun exhausted => ?_
    obtain ⟨chain, later, rfl, refuses⟩ := next exhausted
    exact ⟨chain, later ++ more, rfl, refuses⟩
  · obtain ⟨named⟩ := hs
    have ht := hf a t
    dsimp only
    rcases hr' : runFrom (f a) t with ⟨e | b, u⟩ <;> rw [hr'] at ht
    · obtain - | ⟨rfl, named', next⟩ := ht
      exact .part (List.append_assoc ..).symm (SymbolTable.nameLevels_append named named') next
    · obtain ⟨named'⟩ := ht
      exact .all (SymbolTable.nameLevels_append named named')

theorem Enters.after (hf : ∀ a, Enters (f a) chains) (hx : Enters x []) : Enters (x >>= f) chains :=
  enters_bind hx hf

theorem Enters.before (hx : Enters x chains) (hf : ∀ a, Enters (f a) []) :
    Enters (x >>= f) chains := by
  have both := enters_bind hx hf
  rwa [List.append_nil] at both

theorem enters_pure (a : α) : Enters (pure a) [] := fun _ => .all rfl

theorem enters_within {step : BuildStep} (hx : Enters x chains) :
    Enters (within step x) chains := by
  intro s
  have hs := hx s
  rw [runFrom_within]
  rcases hr : runFrom x s with ⟨e | a, t⟩ <;> rw [hr] at hs
  · obtain - | ⟨split, named, next⟩ := hs
    refine .part split named fun exhausted => ?_
    obtain ⟨chain, later, hleft, refuses⟩ := next exhausted
    exact ⟨chain, later, hleft, refuses.context step⟩
  · obtain ⟨named⟩ := hs
    exact .all named

theorem enters_nil {P : α → Prop} (keeps : Moves (fun s t => t.symbols = s.symbols) x)
    (settles : Settles x P fun e => ¬ e.NamesExhausted) : Enters x [] := by
  intro s
  have hk := keeps s
  have hs := settles s
  rcases hr : runFrom x s with ⟨e | a, t⟩ <;> rw [hr] at hk hs
  · exact .none hk fun exhausted => absurd exhausted hs
  · exact .all (congrArg _ (congrArg _ hk.symm))

end sequences

/-! ### Steps of a build -/

theorem keeps_symbols : StateOrder fun s t => t.symbols = s.symbols := .ofView BuildState.symbols

theorem enters_commentOf (l : Location) (description : String) :
    Enters (commentOf l description) [] := by
  refine enters_nil (keeps_symbols.composes.commentOf l description)
    (settles_commentOf.mono (fun _ h => h) ?_)
  rintro e ⟨cause, -, rfl⟩ ⟨name, h⟩
  cases h

theorem enters_registerIgnored (l : Location) : Enters (registerIgnored l) [] := by
  refine enters_nil (fun s => ?_) settles_registerIgnored
  rw [runFrom_registerIgnored]
  dsimp only
  split <;> rfl

theorem enters_siteOf (name : FieldName) (l : Location) (traits : Traits) (comment : Comment) :
    Enters (siteOf name l traits comment) [] :=
  enters_nil (keeps_symbols.moves_get fun _ => keeps_symbols.composes.value _) settles_siteOf

theorem enters_placeVariants (site : Site) (variants : List Variant) (level : Level) :
    Enters (placeVariants site variants level) [] := by
  have keeps : Moves (fun s t => t.symbols = s.symbols) (placeVariants site variants level) :=
    keeps_symbols.composes.placeVariants (fun _ _ _ _ => rfl) (fun _ _ _ => rfl)
      (fun _ _ _ => rfl) variants level
  refine enters_nil keeps (settles_placeVariants.mono (fun _ h => h) ?_)
  rintro e ⟨v, -, -, rfl⟩ ⟨name, h⟩
  cases h

theorem enters_closeLevel (l : Location) (level : Level) : Enters (closeLevel l level) [] :=
  enters_nil (keeps_symbols.composes.closeLevel (fun _ _ _ _ => rfl) l level) settles_closeLevel

theorem enters_openLevel {l : Location} (hl : l.names ≠ []) : Enters (openLevel l) [l.names] := by
  intro s
  -- The first name that is not free is the cause of the error.
  have refused {step : BuildStep} {cause : AllocationError} {suffix : String}
      (asks : step.AsksFor l.names) (taken : s.symbols.allocate suffix l.names = .error cause)
      (unnamed : s.symbols.nameLevel l.names = .error cause) :
      Entered (α := Level) [l.names] s (.error (.context step (.ofAllocation cause)), s) := by
    obtain ⟨name, rfl⟩ := allocate_error hl taken
    exact .none rfl fun _ =>
      ⟨l.names, [], rfl, ⟨name, rfl, unnamed⟩, [], step, rfl, asks⟩
  rw [openLevel, runFrom_bind, runFrom_within, runFrom_allocate]
  cases hp : s.symbols.allocate "Parameters" l.names with
  | error cause => exact refused (.inl rfl) hp (by rw [SymbolTable.nameLevel, hp])
  | ok parameters =>
      show Entered _ _ (runFrom _ s)
      rw [runFrom_bind, runFrom_within, runFrom_allocate]
      cases ho : s.symbols.allocate "Observation" l.names with
      | error cause => exact refused (.inr rfl) ho (by rw [SymbolTable.nameLevel, hp, ho])
      | ok observation =>
          have named : s.symbols.nameLevel l.names = .ok (⟨parameters, observation⟩, _) :=
            SymbolTable.nameLevel_ok.mpr ⟨hp, ho, rfl⟩
          exact .all (SymbolTable.nameLevels_cons.mpr ⟨_, _, [], named, rfl, rfl⟩)

/-! ### Attributes and resources -/

theorem enters_schema_collection {traits : Traits} {element : Element} {l : Location} {depth : Nat}
    {chains : List (List String)} (hk : traits.kind.isCollection = true)
    (resolves : Enters (elementVariants element traits.isObservation l depth) chains) :
    Enters (schema (.mk traits element) l depth) chains := by
  rw [schema_eq, Attribute.ofKind?_collection hk, if_pos hk]
  split
  · exact enters_throw (by rintro ⟨name, h⟩; cases h)
  · exact resolves.before fun _ => enters_pure _

theorem enters_schema {a : Attribute} {l : Location} {depth : Nat} {chains : List (List String)}
    (flat : a.nested? = none → chains = [])
    (below : ∀ r, a.nested? = some r →
      Enters (resource r (l.inside a) (depth + a.edges)) chains) :
    Enters (schema a l depth) chains := by
  induction a using Attribute.chain_induction generalizing l depth with
  | scalar traits element hk =>
      obtain rfl := flat (Attribute.nested?_scalar element hk)
      rw [schema_eq]
      split
      · exact enters_throw (by rintro ⟨name, h⟩; cases h)
      · split
        · exact enters_pure _
        · rw [if_neg (by rw [hk]; exact Bool.false_ne_true)]
          exact enters_throw (by rintro ⟨name, h⟩; cases h)
  | unset traits hk =>
      obtain rfl := flat (by rw [Attribute.nested?])
      apply enters_schema_collection hk
      rw [elementVariants]
      exact enters_pure _
  | primitive traits kind hk =>
      obtain rfl := flat (by rw [Attribute.nested?])
      apply enters_schema_collection hk
      rw [elementVariants]
      split
      · exact enters_pure _
      · exact enters_throw (by rintro ⟨name, h⟩; cases h)
  | resource traits inner hk =>
      apply enters_schema_collection hk
      rw [elementVariants]
      have inside := below inner (Attribute.nested?_resource inner hk)
      refine (enters_within inside).before fun refs => ?_
      dsimp only
      split <;> exact enters_pure _
  | schema traits inner hk ih =>
      rw [Attribute.nested?_schema inner hk] at flat below
      apply enters_schema_collection hk
      rw [elementVariants]
      refine (enters_within (ih flat fun r hr => ?_)).before fun _ => enters_pure _
      have inside := below r hr
      rw [Attribute.edges, ← Nat.add_assoc, Nat.add_right_comm] at inside
      exact inside

theorem enters_resource {attributes : List (String × Attribute)} {l : Location} {depth : Nat}
    {chains : List (List String)} (hl : l.names ≠ [])
    (visits : ∀ level, Enters (fields attributes l depth level) chains) :
    Enters (resource (.mk attributes) l depth) (l.names :: chains) := by
  rw [resource]
  split
  · exact enters_throw (by rintro ⟨name, h⟩; cases h)
  · exact enters_bind (enters_openLevel hl) fun opened =>
      (visits opened).before (enters_closeLevel l)

theorem enters_fields_cons {name : String} {a : Attribute} {rest : List (String × Attribute)}
    {l : Location} {depth : Nat} {first others : List (List String)}
    (resolves : Enters (schema a (l.field (.ofSnake name)) depth) first)
    (visits : ∀ level, Enters (fields rest l depth level) others) (level : Level) :
    Enters (fields ((name, a) :: rest) l depth level) (first ++ others) := by
  rw [fields]
  refine .after (fun comment => ?_) (enters_commentOf _ _)
  refine .after (fun _ => ?_) (enters_registerIgnored _)
  refine enters_bind (enters_within resolves) fun variants => ?_
  refine .after (fun site => ?_) (enters_siteOf _ _ _ _)
  exact .after visits (enters_within (enters_placeVariants site variants level))

/-- A visit of attributes enters all levels below them in pre-order. -/
theorem enters_fields (attributes : List (String × Attribute)) (l : Location) (depth : Nat)
    (level : Level) :
    Enters (fields attributes l depth level)
      (((nestedIn attributes).map Prod.fst).chains l.names).preorder := by
  induction attributes using Resource.attributes_induction generalizing l depth level with
  | nil =>
      rw [fields, nestedIn_nil]
      exact enters_pure level
  | flat name a rest ha ih =>
      rw [nestedIn_cons_flat rest ha]
      have resolves : Enters (schema a (l.field (.ofSnake name)) depth) [] := by
        refine enters_schema (fun _ => rfl) fun r hr => ?_
        rw [ha] at hr
        cases hr
      exact enters_fields_cons resolves (ih l depth) level
  | nested name a inner rest ha ihi ihr =>
      rw [nestedIn_cons_nested rest ha, Forest.map, Forest.chains, Forest.preorder,
        ← List.cons_append]
      refine enters_fields_cons (enters_schema (fun flat => ?_) fun r hr => ?_) (ihr l depth) level
      · rw [ha] at flat
        cases flat
      · rw [ha] at hr
        cases hr
        have names : ((l.field (.ofSnake name)).inside a).names =
            l.names ++ [(FieldName.ofSnake name).camel] := Location.names_inside _ a
        rw [← names]
        exact enters_resource (by rw [names]; simp) (ihi _ _)

theorem entered_root (schema : Resource) (s : BuildState) :
    Entered (schema.chains s.config.kind).preorder s (runFrom (root schema) s) := by
  obtain ⟨attributes⟩ := schema
  have enters := enters_resource (List.cons_ne_nil _ _)
    (enters_fields attributes (.root s.config.kind) 0)
  have whole : Enters (within (.types s.config.kind) _) _ := enters_within enters
  rw [Resource.chains, Forest.preorder, Forest.preorder, List.append_nil]
  exact whole s

end Build

/-! ### Exhausted names -/

/-- When a build exhausts names, it has entered the levels of the schema in pre-order up to one that
is refused in the table that it leaves. -/
theorem entered_of_exhausted {schema : Resource} {config : Config} {symbols : SymbolTable}
    {e : BuildError} (h : (build schema config symbols).outcome = .error e)
    (exhausted : e.rootCause.NamesExhausted) :
    ∃ entered chain later names,
      (schema.chains config.kind).preorder = entered ++ chain :: later ∧
      symbols.nameLevels entered = .ok (names, (finalState schema config symbols).symbols) ∧
      e.Refuses (finalState schema config symbols).symbols chain := by
  obtain ⟨e', fails, rfl⟩ := build_error_iff.mp h
  have failed : runFrom (root schema) { symbols, config } =
      (.error (.context (.types config.kind) e'), finalState schema config symbols) :=
    Prod.ext (fails_within.mpr ⟨e', fails, rfl⟩) rfl
  have run : Entered (schema.chains config.kind).preorder { symbols, config } _ :=
    entered_root schema { symbols, config }
  rw [failed] at run
  obtain - | @⟨_, _, entered, _, names, split, named, next⟩ := run
  obtain ⟨chain, later, rfl, refuses⟩ := next exhausted
  exact ⟨entered, chain, later, names, split, named, refuses⟩

theorem length_lt_of_mem_chains {f : Forest String} {chain c : List String}
    (hc : c ∈ (f.chains chain).preorder) : chain.length < c.length := by
  induction f generalizing chain with
  | nil => cases hc
  | node name children siblings ihc ihs =>
      rw [Forest.chains, Forest.preorder] at hc
      have longer : chain.length < (chain ++ [(FieldName.ofSnake name).camel]).length := by simp
      obtain rfl | hc := List.mem_cons.mp hc
      · exact longer
      · obtain hc | hc := List.mem_append.mp hc
        · exact longer.trans (ihc hc)
        · exact ihs hc

theorem Resource.one_lt_length_of_entered {schema : Resource} {kind : String}
    {entered later : List (List String)} {chain : List String}
    (split : (schema.chains kind).preorder = entered ++ chain :: later) (before : entered ≠ []) :
    1 < chain.length := by
  obtain ⟨first, others, rfl⟩ := List.exists_cons_of_ne_nil before
  rw [Resource.chains, Forest.preorder, Forest.preorder, List.append_nil, List.cons_append,
    List.cons.injEq] at split
  have below : chain ∈ (schema.skeleton.chains [kind]).preorder := by
    rw [split.2]
    exact List.mem_append_right _ List.mem_cons_self
  exact length_lt_of_mem_chains below

/-! ### Main statement -/

/-- When a build with an empty table exhausts names, it has entered the levels of the schema in
pre-order up to one that is refused.  If neither the kind nor the camel name of an attribute is
empty and the chain of that level has `k` names, these are `k + 8` levels at least; and the schema
has more than ten. -/
theorem exhausted_after_levels {schema : Resource} {config : Config} {e : BuildError}
    (h : (build schema config .empty).outcome = .error e) (exhausted : e.rootCause.NamesExhausted)
    (hkind : config.kind ≠ "")
    (filled : ∀ r ∈ schema.reached, (FieldName.ofSnake r.name).camel ≠ "") :
    (∃ entered chain later names,
      (schema.chains config.kind).preorder = entered ++ chain :: later ∧
      SymbolTable.empty.nameLevels entered =
        .ok (names, (finalState schema config .empty).symbols) ∧
      e.Refuses (finalState schema config .empty).symbols chain ∧
      chain.length + 8 ≤ entered.length) ∧
    10 < (schema.chains config.kind).preorder.length := by
  obtain ⟨entered, chain, later, names, split, named, refuses⟩ := entered_of_exhausted h exhausted
  have mem : chain ∈ (schema.chains config.kind).preorder := by
    rw [split]
    exact List.mem_append_right _ List.mem_cons_self
  obtain ⟨hne, hnames⟩ := Resource.forall_mem_chains (P := fun x => x ≠ "") hkind filled mem
  obtain ⟨name, -, taken⟩ := refuses.exhausted
  have bound := SymbolTable.length_add_eight_le named hne hnames taken
  have before : entered ≠ [] := List.ne_nil_of_length_pos (by omega)
  have two := Resource.one_lt_length_of_entered split before
  have length := congrArg List.length split
  rw [List.length_append, List.length_cons] at length
  exact ⟨⟨entered, chain, later, names, split, named, refuses, bound⟩, by omega⟩

/-- Ten lists of resources without attributes; the names differ by underscores only. -/
def underscoresSchema : Resource :=
  .mk ((List.range 10).map fun n =>
    ("a" ++ "".pushn '_' n, .mk { kind := .list, optional := true } (.resource (.mk []))))

/-- With a kind of the same name, eleven levels exhaust the names, and the last one is refused after
ten. -/
theorem exhausted_after_levels_underscores :
    ∃ e, (build underscoresSchema { name := "a", kind := "A" } .empty).outcome = .error e ∧
      e.rootCause = .nameExhausted "AAParameters" ∧
      (underscoresSchema.chains "A").preorder.length = 11 ∧
      (∃ entered chain later names,
        (underscoresSchema.chains "A").preorder = entered ++ chain :: later ∧
        SymbolTable.empty.nameLevels entered = .ok (names,
          (finalState underscoresSchema { name := "a", kind := "A" } .empty).symbols) ∧
        e.Refuses (finalState underscoresSchema { name := "a", kind := "A" } .empty).symbols chain ∧
        chain.length + 8 ≤ entered.length) ∧
      10 < (underscoresSchema.chains "A").preorder.length := by
  obtain ⟨e, h, hroot⟩ := BuildResult.exists_error (f := BuildError.rootCause)
    (show (build underscoresSchema { name := "a", kind := "A" } .empty).error?.map _ =
      some (.nameExhausted "AAParameters") by decide +kernel)
  exact ⟨e, h, hroot, by decide +kernel,
    exhausted_after_levels h ⟨_, hroot⟩ (by decide) (by decide +kernel)⟩

end ResourceTypes
