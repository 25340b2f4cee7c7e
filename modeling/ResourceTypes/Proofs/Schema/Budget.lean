import ResourceTypes.Proofs.Json.Readers
import ResourceTypes.Proofs.OrderedMap
import ResourceTypes.Schema.Reader

/-! # What a budget allows

The readers of a document put schemas together from inside: an attribute around its element, an
element around an attribute or a resource, a resource around its attributes.  Each of them takes
one container from the budget.  Properties that the parts hand on in this way, each for its budget,
hold of everything that the readers give (`Budgeted`, `Budgeted.attributeWithin` and its like), and
so of every resource of a document with two containers less (`Budgeted.documentWithin`). -/

namespace ResourceTypes

open Json

theorem Resource.insertAttribute_eq (name : String) (a : Attribute)
    (l : List (String × Attribute)) :
    Resource.insertAttribute name a l = OrderedMap.insertEntry name a l := by
  induction l with
  | nil => rfl
  | cons e l ih =>
      cases order : compare name e.1 <;>
        simp only [Resource.insertAttribute, OrderedMap.insertEntry, order, ih]

namespace Schema

/-! ### One container -/

theorem gives_slot {σ α : Type} {key : String} {read : Reader α} {store : σ → α → σ} {state : σ}
    {P : α → Prop} {I : σ → Prop} (gives : Gives read P) (keeps : ∀ a, P a → I (store state a)) :
    Gives ((slot key read store).read state) I :=
  gives.map (store state) keeps

theorem gives_attribute {fuel : Nat} {nested : Bool} {kind : Reader ValueKind}
    {element : Reader Element} {P : Element → Prop} {Q : Attribute → Prop} (unset : P .unset)
    (gives : Gives element P) (keeps : ∀ traits e, P e → Q (.mk traits e)) :
    Gives (Reader.record fuel nested (attributeShape kind element)) Q := by
  -- No field but the element touches the element that has been read.
  refine Gives.record (I := fun d : Draft => P d.element) unset ?_ ?_
  · simp only [attributeShape, List.forall_mem_cons]
    refine ⟨?_, ?_, ?_, ?_, ?_, ?_, by simp⟩ <;> intro d hd
    · exact gives_slot (gives_true kind) fun _ _ => hd
    · exact gives_slot (gives_true Reader.boolean) fun _ _ => hd
    · exact gives_slot (gives_true Reader.boolean) fun _ _ => hd
    · exact gives_slot (gives_true Reader.boolean) fun _ _ => hd
    · exact gives_slot (gives_true Reader.text) fun _ _ => hd
    · exact gives_slot gives fun _ he => he
  · intro d a hd h
    simp only [attributeShape] at h
    split at h
    next => cases h
    next =>
      cases h
      exact keeps _ _ hd

/-- An element has what is handed on by what it holds, for which a container must be left. -/
theorem gives_element {nested : Bool} {kind : Reader ValueKind} {inner : Reader Attribute}
    {resource : Reader Resource} {P : Element → Prop} (unset : P .unset)
    (primitives : nested = true → ∀ k, P (.primitive k))
    (schemas : nested = true → Gives inner fun a => P (.schema a))
    (resources : nested = true → Gives resource fun r => P (.resource r)) :
    Gives (Reader.choice nested (elementChoices kind inner resource)) P := by
  refine Gives.choice ?_ fun hn => ?_
  · simp only [elementChoices, List.forall_mem_cons]
    refine ⟨?_, ?_, ?_, ?_, by simp⟩ <;> intro e he
    · cases he
      exact unset
    all_goals cases he
  · simp only [elementChoices, List.forall_mem_cons]
    refine ⟨?_, ?_, ?_, ?_, by simp⟩
    · exact (gives_true Reader.unit).map (fun _ => Element.unset) fun _ _ => unset
    · exact (gives_true kind).map Element.primitive fun k _ => primitives hn k
    · exact (schemas hn).map Element.schema fun _ h => h
    · exact (resources hn).map Element.resource fun _ h => h

theorem gives_resource {fuel : Nat} {nested : Bool}
    {attributes : Reader (List (String × Attribute))} {P : List (String × Attribute) → Prop}
    {Q : Resource → Prop} (empty : P []) (gives : Gives attributes P)
    (keeps : ∀ l, P l → Q (.mk l)) :
    Gives (Reader.record fuel nested (resourceShape attributes)) Q := by
  refine Gives.record (I := P) empty ?_ ?_
  · simp only [resourceShape, List.forall_mem_singleton]
    intro l _
    exact gives_slot gives fun _ h => h
  · intro l r hl h
    cases h
    exact keeps l hl

/-! ### Properties for budgets -/

/-- Properties of attributes, elements, resources and lists of attributes, each for a budget, that
the parts hand on to what is put around them. -/
structure Budgeted (OfAttribute : Nat → Attribute → Prop) (OfElement : Nat → Element → Prop)
    (OfResource : Nat → Resource → Prop)
    (OfAttributes : Nat → List (String × Attribute) → Prop) : Prop where
  around : ∀ {budget e} traits, OfElement budget e → OfAttribute (budget + 1) (.mk traits e)
  unset : ∀ budget, OfElement budget .unset
  primitive : ∀ budget k, OfElement (budget + 1) (.primitive k)
  schema : ∀ {budget a}, OfAttribute budget a → OfElement (budget + 1) (.schema a)
  resource : ∀ {budget r}, OfResource budget r → OfElement (budget + 1) (.resource r)
  listed : ∀ {budget l}, OfAttributes budget l → OfResource (budget + 1) (.mk l)
  empty : ∀ budget, OfAttributes budget []
  insert : ∀ {budget l a} name, OfAttributes (budget + 1) l → OfAttribute budget a →
    OfAttributes (budget + 1) (Resource.insertAttribute name a l)

namespace Budgeted

variable {OfAttribute : Nat → Attribute → Prop} {OfElement : Nat → Element → Prop}
  {OfResource : Nat → Resource → Prop} {OfAttributes : Nat → List (String × Attribute) → Prop}

mutual

theorem attributeWithin (h : Budgeted OfAttribute OfElement OfResource OfAttributes) (fuel : Nat) :
    ∀ budget, Gives (attributeWithin fuel budget) (OfAttribute budget)
  | 0 => by
      rw [Schema.attributeWithin]
      exact gives_record_closed _ _
  | budget + 1 => by
      rw [Schema.attributeWithin]
      exact gives_attribute (h.unset budget) (h.elementWithin fuel budget) fun traits _ =>
        h.around traits

theorem elementWithin (h : Budgeted OfAttribute OfElement OfResource OfAttributes) (fuel : Nat) :
    ∀ budget, Gives (elementWithin fuel budget) (OfElement budget)
  | 0 => by
      rw [Schema.elementWithin]
      exact gives_element (h.unset 0) Bool.noConfusion Bool.noConfusion Bool.noConfusion
  | budget + 1 => by
      rw [Schema.elementWithin]
      exact gives_element (h.unset _) (fun _ => h.primitive budget)
        (fun _ => (h.attributeWithin fuel budget).mono fun _ => h.schema)
        (fun _ => (h.resourceWithin fuel budget).mono fun _ => h.resource)

theorem resourceWithin (h : Budgeted OfAttribute OfElement OfResource OfAttributes) (fuel : Nat) :
    ∀ budget, Gives (resourceWithin fuel budget) (OfResource budget)
  | 0 => by
      rw [Schema.resourceWithin]
      exact gives_record_closed _ _
  | budget + 1 => by
      rw [Schema.resourceWithin]
      exact gives_resource (h.empty budget) (h.attributesWithin fuel budget) fun _ => h.listed

theorem attributesWithin (h : Budgeted OfAttribute OfElement OfResource OfAttributes)
    (fuel : Nat) : ∀ budget, Gives (attributesWithin fuel budget) (OfAttributes budget)
  | 0 => by
      rw [Schema.attributesWithin]
      exact gives_entries_closed
  | budget + 1 => by
      rw [Schema.attributesWithin]
      exact Gives.entries (h.empty _) (h.attributeWithin fuel budget) fun _ name _ => h.insert name

end

/-- The document and its list of resources take a container each. -/
theorem documentWithin (h : Budgeted OfAttribute OfElement OfResource OfAttributes)
    (fuel budget : Nat) :
    Gives (documentWithin fuel budget) fun d =>
      ∀ e ∈ d.resources.entries, ∃ inner, budget = inner + 2 ∧ OfResource inner e.2 := by
  cases budget with
  | zero =>
      rw [Schema.documentWithin]
      exact gives_record_closed _ _
  | succ budget =>
      let Allowed (m : OrderedMap String Resource) : Prop :=
        ∀ e ∈ m.entries, ∃ inner, budget = inner + 1 ∧ OfResource inner e.2
      have nothing : Allowed .empty := fun e he => absurd he List.not_mem_nil
      have resources : Gives (resourcesWithin fuel budget) Allowed := by
        cases budget with
        | zero =>
            rw [resourcesWithin]
            exact gives_entries_closed
        | succ budget =>
            rw [resourcesWithin]
            refine Gives.entries nothing (h.resourceWithin fuel budget) ?_
            intro m name r hm hr e he
            obtain rfl | he := OrderedMap.mem_insertEntry he
            · exact ⟨budget, rfl, hr⟩
            · exact hm e he
      rw [Schema.documentWithin]
      refine Gives.record (I := Allowed) nothing ?_ ?_
      · simp only [documentShape, List.forall_mem_singleton]
        intro m _
        exact gives_slot resources fun _ hm => hm
      · intro m d hm hd e he
        cases hd
        obtain ⟨inner, rfl, hr⟩ := hm e he
        exact ⟨inner, rfl, hr⟩

end Budgeted

end Schema

end ResourceTypes
