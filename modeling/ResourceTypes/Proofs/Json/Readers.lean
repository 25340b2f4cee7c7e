import ResourceTypes.Json.Record

/-! # What readers give

`Gives read P` says that every value that a reader gives has the property `P`, whatever the text.
The reader of a container takes the property over from the readers of what it holds: a record from
the readers of its fields by an invariant of what has been read (`Gives.record`), an object with
keys of its own from the reader of its values (`Gives.entries`), and a choice from the readers of
its alternatives (`Gives.choice`).  A container for which no nesting is left gives nothing, so that
it has every property (`gives_record_closed` and its like). -/

namespace ResourceTypes.Json

/-- Every value that the reader gives has the property. -/
def Gives {α : Type} (read : Reader α) (P : α → Prop) : Prop :=
  ∀ s a rest, read s = .ok (a, rest) → P a

section readers

variable {α β σ : Type} {P : α → Prop} {I : σ → Prop}

theorem gives_true (read : Reader α) : Gives read fun _ => True := fun _ _ _ _ => trivial

theorem Gives.mono {read : Reader α} {Q : α → Prop} (gives : Gives read P)
    (weaker : ∀ a, P a → Q a) : Gives read Q :=
  fun s a rest h => weaker a (gives s a rest h)

theorem refuse_ne_ok (expected : String) (s : List Char) (a : α) : refuse expected s ≠ .ok a := by
  intro h
  unfold refuse at h
  split at h <;> cases h

theorem Gives.map {read : Reader α} {Q : β → Prop} (gives : Gives read P) (f : α → β)
    (keeps : ∀ a, P a → Q (f a)) : Gives (fun s => (read s).map fun r => (f r.1, r.2)) Q := by
  intro s b rest h
  cases hr : read s with
  | error e =>
      simp only [hr, Except.map] at h
      cases h
  | ok r =>
      simp only [hr, Except.map, Except.ok.injEq, Prod.mk.injEq] at h
      obtain ⟨rfl, -⟩ := h
      exact keeps r.1 (gives s r.1 r.2 hr)

theorem bind_ok {x : Except Fault α} {f : α → Except Fault β} {b : β} (h : x >>= f = .ok b) :
    ∃ a, x = .ok a ∧ f a = .ok b := by
  cases x with
  | error e => cases h
  | ok a => exact ⟨a, rfl, h⟩

theorem settled_ok {finish : List Char → List Char} {x : Except Fault α} {a : α} :
    settled finish x = .ok a ↔ x = .ok a := by
  cases x <;> simp [settled]

/-! ### Records -/

/-- Reading one field after the other keeps what every field keeps. -/
theorem gives_recordEntries {total : Nat} {slots : List (Slot σ)}
    (keeps : ∀ slot ∈ slots, ∀ state, I state → Gives (slot.read state) I) :
    ∀ (fuel : Nat) (first : Bool) (seen : List String) (state : σ), I state →
      Gives (recordEntries total slots fuel first seen state) I := by
  intro fuel
  induction fuel with
  | zero =>
      intro first seen state hI s a rest h
      cases h
  | succ fuel ih =>
      intro first seen state hI s a rest h
      rw [recordEntries] at h
      split at h
      next => cases h
      next =>
        cases h
        exact hI
      next key text hkey =>
        split at h
        next hslot =>
          -- A key that names no field is passed over.
          split at h
          next => cases h
          next =>
            split at h
            next => cases h
            next => exact ih _ _ _ hI _ _ _ h
        next slot hslot =>
          have mem : slot ∈ slots := List.mem_of_find?_eq_some hslot
          split at h
          next => cases h
          next =>
            split at h
            next => cases h
            next =>
              split at h
              next => cases h
              next read' hread =>
                have hI' := keeps slot mem state hI _ _ _ hread
                exact ih _ _ _ hI' _ _ _ h

theorem gives_recordElements {slots : List (Slot σ)}
    (keeps : ∀ slot ∈ slots, ∀ state, I state → Gives (slot.read state) I) :
    ∀ (first : Bool) (state : σ), I state → Gives (recordElements slots first state) I := by
  induction slots with
  | nil =>
      intro first state hI s a rest h
      cases h
      exact hI
  | cons slot slots ih =>
      obtain ⟨keepsFirst, keepsOthers⟩ := List.forall_mem_cons.mp keeps
      intro first state hI s a rest h
      rw [recordElements] at h
      split at h
      next => cases h
      next =>
        cases h
        exact hI
      next text _ =>
        split at h
        next => cases h
        next read' hread =>
          have hI' := keepsFirst state hI _ _ _ hread
          exact ih keepsOthers _ _ hI' _ _ _ h

theorem completeObject_ok {shape : Shape σ α} {state : σ} {s rest : List Char} {a : α}
    (h : completeObject shape state s = .ok (a, rest)) : shape.complete state = .ok a := by
  unfold completeObject at h
  split at h
  next b hb =>
    cases h
    exact hb
  next => cases h

theorem completeArray_ok {shape : Shape σ α} {state : σ} {s rest : List Char} {a : α}
    (h : completeArray shape state s = .ok (a, rest)) : shape.complete state = .ok a := by
  unfold completeArray at h
  split at h
  next b hb =>
    cases h
    exact hb
  next => cases h

/-- A record has what its completion makes of what the readers of its fields keep. -/
theorem Gives.record {shape : Shape σ α} {fuel : Nat} {nested : Bool} (start : I shape.start)
    (slots : ∀ slot ∈ shape.slots, ∀ state, I state → Gives (slot.read state) I)
    (complete : ∀ state a, I state → shape.complete state = .ok a → P a) :
    Gives (Reader.record fuel nested shape) P := by
  intro s a rest h
  rw [Reader.record] at h
  split at h
  next =>
    split at h
    next =>
      rw [recordObject, settled_ok] at h
      obtain ⟨⟨state, s₁⟩, hentries, h⟩ := bind_ok h
      obtain ⟨⟨b, s₂⟩, hcomplete, h⟩ := bind_ok h
      obtain ⟨s₃, -, h⟩ := bind_ok h
      cases h
      have hI : I state := gives_recordEntries slots _ _ _ _ start _ _ _ hentries
      exact complete state _ hI (completeObject_ok hcomplete)
    next => cases h
  next =>
    split at h
    next =>
      rw [recordArray, settled_ok] at h
      obtain ⟨⟨state, s₁⟩, helements, h⟩ := bind_ok h
      obtain ⟨⟨b, s₂⟩, hcomplete, h⟩ := bind_ok h
      obtain ⟨s₃, -, h⟩ := bind_ok h
      cases h
      have hI : I state := gives_recordElements slots _ _ start _ _ _ helements
      exact complete state _ hI (completeArray_ok hcomplete)
    next => cases h
  next => exact absurd h (refuse_ne_ok _ _ _)

theorem gives_record_closed (fuel : Nat) (shape : Shape σ α) :
    Gives (Reader.record fuel false shape) P := by
  intro s a rest h
  rw [Reader.record] at h
  split at h
  next => cases h
  next => cases h
  next => exact absurd h (refuse_ne_ok _ _ _)

/-! ### Entries with free keys -/

theorem gives_entriesLoop {read : Reader α} {add : σ → String → α → σ} (gives : Gives read P)
    (keeps : ∀ state key a, I state → P a → I (add state key a)) :
    ∀ (fuel : Nat) (first : Bool) (state : σ), I state →
      Gives (entriesLoop read add fuel first state) I := by
  intro fuel
  induction fuel with
  | zero =>
      intro first state hI s a rest h
      cases h
  | succ fuel ih =>
      intro first state hI s a rest h
      rw [entriesLoop] at h
      split at h
      next => cases h
      next =>
        cases h
        exact hI
      next key text _ =>
        split at h
        next => cases h
        next =>
          split at h
          next => cases h
          next b text' hread =>
            have hI' := keeps state key b hI (gives _ _ _ hread)
            exact ih _ _ hI' _ _ _ h

/-- An object with free keys has what every entry keeps. -/
theorem Gives.entries {read : Reader α} {add : σ → String → α → σ} {fuel : Nat} {nested : Bool}
    {start : σ} (begins : I start) (gives : Gives read P)
    (keeps : ∀ state key a, I state → P a → I (add state key a)) :
    Gives (Reader.entries fuel nested read add start) I := by
  intro s a rest h
  rw [Reader.entries] at h
  split at h
  next =>
    split at h
    next =>
      rw [settled_ok] at h
      obtain ⟨⟨state, s₁⟩, hloop, h⟩ := bind_ok h
      obtain ⟨s₂, -, h⟩ := bind_ok h
      cases h
      exact gives_entriesLoop gives keeps _ _ _ begins _ _ _ hloop
    next => cases h
  next => exact absurd h (refuse_ne_ok _ _ _)

theorem gives_entries_closed {read : Reader α} {add : σ → String → α → σ} {fuel : Nat}
    {start : σ} : Gives (Reader.entries fuel false read add start) I := by
  intro s a rest h
  rw [Reader.entries] at h
  split at h
  next => cases h
  next => exact absurd h (refuse_ne_ok _ _ _)

/-! ### Alternatives -/

theorem findChoice_ok {choices : List (Choice α)} {name : String} {rest : List Char}
    {c : Choice α} (h : findChoice choices name rest = .ok c) : c ∈ choices := by
  unfold findChoice at h
  split at h
  next d hd =>
    cases h
    exact List.mem_of_find?_eq_some hd
  next => cases h

theorem gives_choiceName {choices : List (Choice α)}
    (bare : ∀ c ∈ choices, ∀ a, c.bare = some a → P a) : Gives (choiceName choices) P := by
  intro s a rest h
  obtain ⟨⟨name, s₁⟩, -, h⟩ := bind_ok h
  obtain ⟨c, hc, h⟩ := bind_ok h
  split at h
  next b hb =>
    cases h
    exact bare c (findChoice_ok hc) _ hb
  next => cases h

theorem gives_choiceObject {choices : List (Choice α)}
    (content : ∀ c ∈ choices, Gives c.content P) : Gives (choiceObject choices) P := by
  intro s a rest h
  obtain ⟨⟨name, s₁⟩, -, h⟩ := bind_ok h
  obtain ⟨c, hc, h⟩ := bind_ok h
  obtain ⟨s₂, -, h⟩ := bind_ok h
  obtain ⟨⟨b, s₃⟩, hread, h⟩ := bind_ok h
  obtain ⟨s₄, -, h⟩ := bind_ok h
  cases h
  exact content c (findChoice_ok hc) _ _ _ hread

/-- A choice has what its alternatives have, standing alone or with a content. -/
theorem Gives.choice {choices : List (Choice α)} {nested : Bool}
    (bare : ∀ c ∈ choices, ∀ a, c.bare = some a → P a)
    (content : nested = true → ∀ c ∈ choices, Gives c.content P) :
    Gives (Reader.choice nested choices) P := by
  intro s a rest h
  rw [Reader.choice] at h
  split at h
  next => cases h
  next =>
    split at h
    next =>
      split at h
      next hn => exact gives_choiceObject (content hn) _ _ _ h
      next => cases h
    next =>
      split at h
      next => exact gives_choiceName bare _ _ _ h
      next => cases h

/-! ### Whole texts -/

theorem Gives.readAll {read : Reader α} (gives : Gives read P) {s : List Char} {a : α}
    (h : readAll read s = .ok a) : P a := by
  unfold Json.readAll at h
  split at h
  next => cases h
  next b rest hread =>
    split at h
    next =>
      cases h
      exact gives _ _ _ hread
    next => cases h

end readers

end ResourceTypes.Json
