import ResourceTypes.Proofs.Json.Printed
import ResourceTypes.Proofs.Schema.Budget
import ResourceTypes.Schema.Json

/-! # Reading printed schemas

A printed document is read back, whatever elements are nested in one another, with every budget
that allows its nesting (`parseWithin_print`).  Each container is read with one container less in
the budget, so that the statements for attributes, elements and resources go along the budget, as
their readers do (`reads_attributeWithin`).  What is read of an attribute is filled in by its
entries, of which that for the element is missing where no element is declared.

Whatever document is read is in order and nests hardly deeper when it is printed
(`budgeted_printed`), so that it is read again (`parseWithin_print_of_parseWithin`). -/

namespace ResourceTypes

open Json

/-! ### Schemas in order -/

theorem attributesOrdered_iff {l : List (String × Attribute)} :
    AttributesOrdered l ↔ ∀ e ∈ l, e.2.Ordered := by
  induction l with
  | nil => simp [AttributesOrdered]
  | cons e l ih => rw [AttributesOrdered, ih, List.forall_mem_cons]

/-- Every resource of the document is in order. -/
def Document.Ordered (d : Document) : Prop := ∀ e ∈ d.resources.entries, e.2.Ordered

theorem attributesToJson_eq (l : List (String × Attribute)) :
    attributesToJson l = l.map fun e => (e.1, e.2.toJson) := by
  induction l with
  | nil => rfl
  | cons e l ih => rw [attributesToJson, ih, List.map_cons]

theorem Element.toEntries_cases (e : Element) :
    (e = .unset ∧ e.toEntries = []) ∨ ∃ v, e.toEntries = [("elem", v)] := by
  cases e with
  | unset => exact .inl ⟨rfl, rfl⟩
  | primitive kind => exact .inr ⟨_, rfl⟩
  | schema inner => exact .inr ⟨_, rfl⟩
  | resource inner => exact .inr ⟨_, rfl⟩

namespace Schema

/-! ### One container -/

theorem reads_kind (nested : Bool) (k : ValueKind) :
    Reads (kind nested) (print (.text k.label)) k := by
  have names : (kindChoices.map Choice.name).Nodup := by decide +kernel
  let c : Choice ValueKind := ⟨k.label, some k, fun s => (Reader.unit s).map fun r => (k, r.2)⟩
  have mem : c ∈ kindChoices := List.mem_map_of_mem (by cases k <;> decide)
  exact reads_choiceName (c := c) nested names mem rfl

theorem fills_slot {α σ : Type} {slots : List (Slot σ)} {key : String} {read : Reader α}
    {store : σ → α → σ} {a : α} {v : Json} {rest : List (String × Json)} {state last : σ}
    (reads : Reads read v.print a) (later : FillsSlots slots rest (store state a) last) :
    FillsSlots (slot key read store :: slots) ((key, v) :: rest) state last :=
  .take (reads.map (store state)) later

theorem reads_attribute {fuel : Nat} {kind : Reader ValueKind} {element : Reader Element}
    {traits : Traits} {e : Element}
    (kinds : Reads kind (print (.text traits.kind.label)) traits.kind)
    (elements : ∀ v, e.toEntries = [("elem", v)] → Reads element v.print e)
    {budget : Nat} (fits : Fits fuel budget (Attribute.mk traits e).toJson) :
    Reads (Reader.record fuel true (attributeShape kind element))
      (Attribute.mk traits e).toJson.print (.mk traits e) := by
  let bare : Draft :=
    ⟨some traits.kind, traits.optional, traits.computed, traits.sensitive, traits.description,
      .unset⟩
  -- No entry stands for an element that is not declared, as which every element starts.
  have last : FillsSlots [slot "elem" element fun d e => { d with element := e }] e.toEntries bare
      { bare with element := e } := by
    rcases e.toEntries_cases with ⟨rfl, h⟩ | ⟨v, h⟩
    · rw [h]
      exact .skip (.nil bare)
    · rw [h]
      exact fills_slot (elements v h) (.nil _)
  have fills : FillsSlots (attributeShape kind element).slots _
      (attributeShape kind element).start _ :=
    fills_slot kinds <| fills_slot (reads_boolean traits.optional) <|
      fills_slot (reads_boolean traits.computed) <| fills_slot (reads_boolean traits.sensitive) <|
      fills_slot (reads_text traits.description) last
  have keys : ["type", "optional", "computed", "sensitive", "description", "elem"].Nodup := by
    decide +kernel
  rw [Attribute.toJson] at fits ⊢
  exact fills.reads keys rfl fits.entries_length

theorem reads_resource {fuel : Nat} {attributes : Reader (List (String × Attribute))}
    {l : List (String × Attribute)}
    (reads : Reads attributes (print (.object (attributesToJson l))) l) {budget : Nat}
    (fits : Fits fuel budget (Resource.mk l).toJson) :
    Reads (Reader.record fuel true (resourceShape attributes)) (Resource.mk l).toJson.print
      (.mk l) := by
  rw [Resource.toJson] at fits ⊢
  have fills : FillsSlots (resourceShape attributes).slots _ (resourceShape attributes).start _ :=
    fills_slot reads (.nil _)
  exact fills.reads (List.nodup_singleton _) rfl fits.entries_length

/-- An element is read in an object under its name when what it holds is. -/
theorem reads_element {kind : Reader ValueKind} {inner : Reader Attribute}
    {resource : Reader Resource} {c : Choice Element} {e : Element} {v : Json}
    (mem : c ∈ elementChoices kind inner resource) (reads : Reads c.content v.print e) :
    Reads (Reader.choice true (elementChoices kind inner resource))
      (print (.object [(c.name, v)])) e := by
  have names : ["unset", "primitive", "schema", "resource"].Nodup := by decide +kernel
  exact reads_choice names mem reads

/-- Attributes in the order of their names are read when each of them is. -/
theorem reads_attributeEntries {fuel : Nat} {read : Reader Attribute}
    {l : List (String × Attribute)} (ordered : (Resource.mk l).Ordered)
    (reads : ∀ e ∈ l, Reads read e.2.toJson.print e.2) {budget : Nat}
    (fits : Fits fuel budget (.object (attributesToJson l))) :
    Reads (attributeEntries fuel true read) (print (.object (attributesToJson l))) l := by
  rw [attributesToJson_eq] at fits ⊢
  have enough := fits.entries_length
  rw [List.length_map] at enough
  have read := reads_entries (fun l name a => Resource.insertAttribute name a l) [] reads enough
  rw [Resource.Ordered] at ordered
  have inOrder : l.foldl (fun l e => Resource.insertAttribute e.1 e.2 l) [] = l := by
    simp only [Resource.insertAttribute_eq]
    exact OrderedMap.foldl_insertEntry (l := []) ordered.1
  rwa [inOrder] at read

/-! ### Budgets -/

mutual

theorem reads_attributeWithin (fuel : Nat) :
    ∀ budget a, Attribute.Ordered a → Fits fuel budget a.toJson →
      Reads (attributeWithin fuel budget) a.toJson.print a
  | 0, .mk traits e, _, fits => by
      rw [Attribute.toJson] at fits
      exact absurd fits Fits.not_zero
  | budget + 1, .mk traits e, ordered, fits => by
      rw [attributeWithin]
      refine reads_attribute (reads_kind _ _) (fun v hv => ?_) fits
      rw [Attribute.Ordered] at ordered
      rw [Attribute.toJson] at fits
      have mem : ("elem", v) ∈ e.toEntries := hv ▸ List.mem_singleton_self _
      exact reads_elementWithin fuel budget e v hv ordered
        (fits.of_mem (List.mem_append_right _ mem))

theorem reads_elementWithin (fuel : Nat) :
    ∀ budget (e : Element) v, e.toEntries = [("elem", v)] → e.Ordered → Fits fuel budget v →
      Reads (elementWithin fuel budget) v.print e
  | 0, e, v, hv, _, fits => by
      cases e <;> cases hv <;> exact absurd fits Fits.not_zero
  | budget + 1, .unset, v, hv, _, _ => by cases hv
  | budget + 1, .primitive k, v, hv, _, _ => by
      cases hv
      rw [elementWithin]
      exact reads_element (c := ⟨"primitive", none, _⟩) (.tail _ (.head _))
        ((reads_kind _ k).map Element.primitive)
  | budget + 1, .schema inner, v, hv, ordered, fits => by
      cases hv
      rw [elementWithin]
      rw [Element.Ordered] at ordered
      have reads := reads_attributeWithin fuel budget inner ordered (fits.of_mem List.mem_cons_self)
      exact reads_element (c := ⟨"schema", none, _⟩) (.tail _ (.tail _ (.head _)))
        (reads.map Element.schema)
  | budget + 1, .resource inner, v, hv, ordered, fits => by
      cases hv
      rw [elementWithin]
      rw [Element.Ordered] at ordered
      have reads := reads_resourceWithin fuel budget inner ordered (fits.of_mem List.mem_cons_self)
      exact reads_element (c := ⟨"resource", none, _⟩) (.tail _ (.tail _ (.tail _ (.head _))))
        (reads.map Element.resource)

theorem reads_resourceWithin (fuel : Nat) :
    ∀ budget r, Resource.Ordered r → Fits fuel budget r.toJson →
      Reads (resourceWithin fuel budget) r.toJson.print r
  | 0, .mk l, _, fits => by
      rw [Resource.toJson] at fits
      exact absurd fits Fits.not_zero
  | budget + 1, .mk l, ordered, fits => by
      rw [resourceWithin]
      refine reads_resource ?_ fits
      rw [Resource.toJson] at fits
      exact reads_attributesWithin fuel budget l ordered (fits.of_mem List.mem_cons_self)

theorem reads_attributesWithin (fuel : Nat) :
    ∀ budget l, (Resource.mk l).Ordered → Fits fuel budget (.object (attributesToJson l)) →
      Reads (attributesWithin fuel budget) (print (.object (attributesToJson l))) l
  | 0, l, _, fits => absurd fits Fits.not_zero
  | budget + 1, l, ordered, fits => by
      rw [attributesWithin]
      refine reads_attributeEntries ordered (fun e he => ?_) fits
      rw [Resource.Ordered] at ordered
      rw [attributesToJson_eq] at fits
      exact reads_attributeWithin fuel budget e.2 (attributesOrdered_iff.mp ordered.2 e he)
        (fits.of_mem (List.mem_map_of_mem he))

end

theorem reads_resourcesWithin (fuel : Nat) (m : OrderedMap String Resource)
    (ordered : ∀ e ∈ m.entries, e.2.Ordered) :
    ∀ budget, Fits fuel budget (.object (m.entries.map fun e => (e.1, e.2.toJson))) →
      Reads (resourcesWithin fuel budget)
        (print (.object (m.entries.map fun e => (e.1, e.2.toJson)))) m
  | 0, fits => absurd fits Fits.not_zero
  | budget + 1, fits => by
      have enough := fits.entries_length
      rw [List.length_map] at enough
      have reads : ∀ e ∈ m.entries, Reads (resourceWithin fuel budget) e.2.toJson.print e.2 :=
        fun e he => reads_resourceWithin fuel budget e.2 (ordered e he)
          (fits.of_mem (List.mem_map_of_mem he))
      have read := reads_entries (fun m name r => OrderedMap.insert m name r) .empty reads enough
      have whole : m.entries.foldl (fun m e => m.insert e.1 e.2) .empty = m := m.insertAll_entries
      rw [resourcesWithin]
      rwa [whole] at read

theorem reads_documentWithin (fuel : Nat) {d : Document} (ordered : d.Ordered) :
    ∀ budget, Fits fuel budget d.toJson → Reads (documentWithin fuel budget) d.toJson.print d
  | 0, fits => absurd fits Fits.not_zero
  | budget + 1, fits => by
      rw [Document.toJson] at fits ⊢
      have resources := reads_resourcesWithin fuel d.resources ordered budget
        (fits.of_mem List.mem_cons_self)
      have fills : FillsSlots (documentShape (resourcesWithin fuel budget)).slots _
          (documentShape (resourcesWithin fuel budget)).start _ :=
        fills_slot resources (.nil _)
      rw [documentWithin]
      exact fills.reads (List.nodup_singleton _) rfl fits.entries_length

end Schema

/-- A printed document is read back with every budget that allows its nesting. -/
theorem Document.parseWithin_print {d : Document} (ordered : d.Ordered) {budget : Nat}
    (fits : d.toJson.nesting ≤ budget) : Document.parseWithin budget d.toJson.print = .ok d := by
  have length : d.toJson.print.length < fuelFor d.toJson.print := by
    rw [fuelFor]
    omega
  have read := Schema.reads_documentWithin _ ordered budget ⟨fits, length⟩ []
  rw [List.append_nil] at read
  rw [parseWithin, readAll, read]
  rfl

/-- A resource with every shape of element, and with texts that are printed with escapes. -/
def layersSchema : Resource :=
  .mk
    [("a\t\"", .mk { kind := .list, optional := true, description := "é\x01\n\\" } (.schema
        (.mk { kind := .set } (.resource
          (.mk [("x", .mk { kind := .map, computed := true } (.primitive .int))]))))),
      ("b", .mk { kind := .string, optional := true, computed := true, sensitive := true } .unset)]

theorem parseWithin_print_layers :
    ∃ d : Document, d.resource? "r" = some layersSchema ∧ d.Ordered ∧ d.toJson.nesting = 12 ∧
      Document.parseWithin 12 d.toJson.print = .ok d := by
  let d : Document := ⟨OrderedMap.empty.insert "r" layersSchema⟩
  have ordered : d.Ordered := by
    refine List.forall_mem_singleton.mpr ?_
    simp only [layersSchema, Resource.Ordered, AttributesOrdered, Attribute.Ordered,
      Element.Ordered]
    decide +kernel
  have nesting : d.toJson.nesting = 12 := by decide +kernel
  exact ⟨d, rfl, ordered, nesting, Document.parseWithin_print ordered (Nat.le_of_eq nesting)⟩

/-! ### Documents that have been read -/

theorem Resource.ordered_insertAttribute {l : List (String × Attribute)} {a : Attribute}
    (name : String) (hl : (Resource.mk l).Ordered) (ha : a.Ordered) :
    (Resource.mk (Resource.insertAttribute name a l)).Ordered := by
  rw [Resource.Ordered, attributesOrdered_iff] at hl ⊢
  rw [Resource.insertAttribute_eq]
  refine ⟨OrderedMap.increasing_insertEntry hl.1, fun e he => ?_⟩
  obtain rfl | he := OrderedMap.mem_insertEntry he
  · exact ha
  · exact hl.2 e he

/-- What is read is in order, and it is printed with one container more than the budget at the
most: the list of attributes, which may be missing where a resource is read, is always printed. -/
theorem budgeted_printed :
    Schema.Budgeted (fun budget a => a.Ordered ∧ a.toJson.nesting ≤ budget + 1)
      (fun budget e => e.Ordered ∧ entriesNesting e.toEntries ≤ budget + 1)
      (fun budget r => r.Ordered ∧ r.toJson.nesting ≤ budget + 1)
      (fun budget l => (Resource.mk l).Ordered ∧ entriesNesting (attributesToJson l) ≤ budget) where
  around traits h := by
    rw [Attribute.Ordered, Attribute.toJson]
    simpa [nesting, entriesNesting] using h
  unset budget := by simp [Element.Ordered, Element.toEntries, entriesNesting]
  primitive budget k := by simp [Element.Ordered, Element.toEntries, entriesNesting, nesting]
  schema h := by
    rw [Element.Ordered, Element.toEntries]
    simpa [nesting, entriesNesting] using h
  resource h := by
    rw [Element.Ordered, Element.toEntries]
    simpa [nesting, entriesNesting] using h
  listed h := by
    rw [Resource.toJson]
    simpa [nesting, entriesNesting] using h
  empty budget := by simp [Resource.Ordered, AttributesOrdered, attributesToJson, entriesNesting]
  insert := by
    rintro budget l a name ⟨hl, nested⟩ ⟨ha, nesting⟩
    refine ⟨Resource.ordered_insertAttribute name hl ha, ?_⟩
    rw [attributesToJson_eq, entriesNesting_le, List.forall_mem_map] at nested ⊢
    intro e he
    rw [Resource.insertAttribute_eq] at he
    obtain rfl | he := OrderedMap.mem_insertEntry he
    · exact nesting
    · exact nested e he

/-- A document that has been read is read again from what is printed of it, with one container
more in the budget. -/
theorem Document.parseWithin_print_of_parseWithin {budget : Nat} {s : List Char} {d : Document}
    (read : parseWithin budget s = .ok d) : parseWithin (budget + 1) d.toJson.print = .ok d := by
  have allowed := (budgeted_printed.documentWithin _ budget).readAll read
  have opened : 1 ≤ budget := by
    cases budget with
    | zero =>
        have nothing : Gives (Schema.documentWithin (fuelFor s) 0) fun _ => False := by
          rw [Schema.documentWithin]
          exact gives_record_closed _ _
        exact (nothing.readAll read).elim
    | succ budget => exact Nat.succ_pos budget
  refine parseWithin_print (fun e he => ?_) ?_
  · obtain ⟨inner, -, ordered, -⟩ := allowed e he
    exact ordered
  · have resources : entriesNesting (d.resources.entries.map fun e => (e.1, e.2.toJson)) ≤
        budget - 1 := by
      refine entriesNesting_le.mpr (List.forall_mem_map.mpr fun e he => ?_)
      obtain ⟨inner, rfl, -, nesting⟩ := allowed e he
      exact nesting
    rw [toJson, nesting, entriesNesting, entriesNesting, nesting]
    omega

end ResourceTypes
