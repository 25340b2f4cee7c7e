import Mathlib.Data.List.Nodup
import Mathlib.Tactic.Common

/-! # Forests

A forest is a list of labelled trees, written as the label and the children of its first tree
and the trees beside it.  `preorder` lists a label before those of its children, `postorder`
after them; both list the same labels (`postorder_perm_preorder`).  `families` lists every label
with the labels of its children, so that a label stands in one family as a child or is a root
(`roots_append_children_perm`), and a child comes before its parent in post-order
(`IsChild.sublist_postorder`). -/

namespace ResourceTypes

/-- Labelled trees side by side. -/
inductive Forest (α : Type) where
  | nil
  | node (label : α) (children siblings : Forest α)
deriving DecidableEq, Repr

namespace Forest

variable {α β γ : Type}

instance : Inhabited (Forest α) := ⟨.nil⟩

/-- The forest with every label replaced. -/
def map (g : α → β) : Forest α → Forest β
  | .nil => .nil
  | .node a children siblings => .node (g a) (children.map g) (siblings.map g)

/-- The labels of the trees, without those below them. -/
def roots : Forest α → List α
  | .nil => []
  | .node a _ siblings => a :: siblings.roots

/-- All labels, each before those below it. -/
def preorder : Forest α → List α
  | .nil => []
  | .node a children siblings => a :: (children.preorder ++ siblings.preorder)

/-- All labels, each after those below it. -/
def postorder : Forest α → List α
  | .nil => []
  | .node a children siblings => children.postorder ++ a :: siblings.postorder

/-- Every label with the labels right below it, in pre-order. -/
def families : Forest α → List (α × List α)
  | .nil => []
  | .node a children siblings => (a, children.roots) :: (children.families ++ siblings.families)

/-- `c` is the label of a child of `p`. -/
def IsChild (f : Forest α) (p c : α) : Prop := ∃ children, (p, children) ∈ f.families ∧ c ∈ children

/-! ### Maps -/

theorem map_map (g : α → β) (k : β → γ) (f : Forest α) :
    (f.map g).map k = f.map fun a => k (g a) := by
  induction f with
  | nil => rfl
  | node a children siblings ihc ihs => rw [map, map, map, ihc, ihs]

@[simp] theorem roots_map (g : α → β) (f : Forest α) : (f.map g).roots = f.roots.map g := by
  induction f with
  | nil => rfl
  | node a children siblings _ ihs => rw [map, roots, roots, List.map_cons, ihs]

@[simp] theorem preorder_map (g : α → β) (f : Forest α) :
    (f.map g).preorder = f.preorder.map g := by
  induction f with
  | nil => rfl
  | node a children siblings ihc ihs =>
      rw [map, preorder, preorder, List.map_cons, List.map_append, ihc, ihs]

@[simp] theorem postorder_map (g : α → β) (f : Forest α) :
    (f.map g).postorder = f.postorder.map g := by
  induction f with
  | nil => rfl
  | node a children siblings ihc ihs =>
      rw [map, postorder, postorder, List.map_append, List.map_cons, ihc, ihs]

theorem map_eq_nil {g : α → β} {f : Forest α} (h : f.map g = .nil) : f = .nil := by
  cases f with
  | nil => rfl
  | node => cases h

theorem map_eq_node {g : α → β} {f : Forest α} {b : β} {below beside : Forest β}
    (h : f.map g = .node b below beside) :
    ∃ a children siblings, f = .node a children siblings ∧ g a = b ∧ children.map g = below ∧
      siblings.map g = beside := by
  cases f with
  | nil => cases h
  | node a children siblings =>
      cases h
      exact ⟨a, children, siblings, rfl, rfl, rfl, rfl⟩

/-! ### Orders -/

theorem eq_of_preorder_eq {f f' : Forest α} {g : α → β} (shape : f.map g = f'.map g)
    (labels : f.preorder = f'.preorder) : f = f' := by
  induction f generalizing f' with
  | nil => exact (map_eq_nil shape.symm).symm
  | node a children siblings ihc ihs =>
      obtain ⟨a', children', siblings', rfl, -, hc, hs⟩ := map_eq_node shape.symm
      obtain ⟨ha, hrest⟩ := List.cons.injEq _ _ _ _ ▸ labels
      have hlen : children.preorder.length = children'.preorder.length := by
        simpa using (congrArg (fun c => c.preorder.length) hc).symm
      obtain ⟨hcp, hsp⟩ := List.append_inj hrest hlen
      rw [ha, ihc hc.symm hcp, ihs hs.symm hsp]

theorem postorder_perm_preorder (f : Forest α) : f.postorder.Perm f.preorder := by
  induction f with
  | nil => exact .nil
  | node a children siblings ihc ihs =>
      exact List.perm_middle.trans ((ihc.append ihs).cons a)

theorem mem_postorder {f : Forest α} {a : α} : a ∈ f.postorder ↔ a ∈ f.preorder :=
  f.postorder_perm_preorder.mem_iff

/-! ### Families -/

theorem map_fst_families (f : Forest α) : f.families.map Prod.fst = f.preorder := by
  induction f with
  | nil => rfl
  | node a children siblings ihc ihs =>
      rw [families, preorder, List.map_cons, List.map_append, ihc, ihs]

/-- Every label is a root or the child of one label. -/
theorem roots_append_children_perm (f : Forest α) :
    (f.roots ++ f.families.flatMap Prod.snd).Perm f.preorder := by
  induction f with
  | nil => exact .nil
  | node a children siblings ihc ihs =>
      simp only [roots, families, preorder, List.flatMap_cons, List.flatMap_append,
        List.cons_append]
      refine List.Perm.cons a (.trans ?_ (ihc.append ihs))
      rw [← List.append_assoc children.roots]
      exact List.perm_append_comm_assoc _ _ _

theorem mem_children {f : Forest α} {c : α} :
    c ∈ f.families.flatMap Prod.snd ↔ ∃ p, f.IsChild p c := by
  rw [List.mem_flatMap]
  constructor
  · rintro ⟨⟨p, children⟩, hf, hc⟩
    exact ⟨p, children, hf, hc⟩
  · rintro ⟨p, children, hf, hc⟩
    exact ⟨(p, children), hf, hc⟩

theorem mem_preorder_iff {f : Forest α} {a : α} :
    a ∈ f.preorder ↔ a ∈ f.roots ∨ ∃ p, f.IsChild p a := by
  rw [← f.roots_append_children_perm.mem_iff, List.mem_append, mem_children]

theorem IsChild.parent_mem_preorder {f : Forest α} {p c : α} (h : f.IsChild p c) :
    p ∈ f.preorder := by
  obtain ⟨children, hf, -⟩ := h
  rw [← f.map_fst_families]
  exact List.mem_map_of_mem hf

theorem IsChild.mem_preorder {f : Forest α} {p c : α} (h : f.IsChild p c) : c ∈ f.preorder :=
  mem_preorder_iff.mpr (.inr ⟨p, h⟩)

/-- A child comes before its parent in post-order. -/
theorem IsChild.sublist_postorder {f : Forest α} {p c : α} (h : f.IsChild p c) :
    [c, p].Sublist f.postorder := by
  obtain ⟨children, hf, hc⟩ := h
  induction f with
  | nil => simp [families] at hf
  | node a inner siblings ihc ihs =>
      simp only [families, List.mem_cons, List.mem_append, Prod.mk.injEq] at hf
      rcases hf with ⟨rfl, rfl⟩ | hf | hf
      · have hc' : c ∈ inner.postorder := mem_postorder.mpr (mem_preorder_iff.mpr (.inl hc))
        exact (List.singleton_sublist.mpr hc').append
          (List.singleton_sublist.mpr List.mem_cons_self)
      · exact (ihc hf).trans (List.sublist_append_left _ _)
      · exact ((ihs hf).cons a).trans (List.sublist_append_right _ _)

end Forest

end ResourceTypes
