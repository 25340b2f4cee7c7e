import Mathlib.Data.List.Basic
import ResourceTypes.Proofs.Text.Pieces

/-! # Texts that begin with a value

A way of writing values is unambiguous when a text that begins with a written value tells the
value and the rest of the text (`Unambiguous`), as a separator does that ends words in which it
does not stand (`word_inj`).  Values written one after the other are told when something ends
them with which none of them begins (`Unambiguous.many`), and values with a separator between them
when the text ends with the last (`Unambiguous.intercalate_inj`). -/

namespace ResourceTypes.Text

variable {α β : Type} {text : α → List Char} {finish : β → List Char} {P : α → Prop}
  {Q : β → Prop}

/-- A text that begins with the text of a value tells the value and the rest. -/
def Unambiguous (text : α → List Char) (P : α → Prop) : Prop :=
  ∀ ⦃a b⦄, P a → P b → ∀ ⦃s t⦄, text a ++ s = text b ++ t → a = b ∧ s = t

/-- A word is told by the separator that ends it. -/
theorem word_inj {sep : Char} {v w s t : List Char} (hv : sep ∉ v) (hw : sep ∉ w)
    (same : v ++ sep :: s = w ++ sep :: t) : v = w ∧ s = t := by
  induction v generalizing w with
  | nil =>
      cases w with
      | nil => exact ⟨rfl, List.tail_eq_of_cons_eq same⟩
      | cons d w => exact absurd (List.head_eq_of_cons_eq same) (List.ne_of_not_mem_cons hw)
  | cons c v ih =>
      cases w with
      | nil => exact absurd (List.head_eq_of_cons_eq same).symm (List.ne_of_not_mem_cons hv)
      | cons d w =>
          obtain ⟨rfl, tails⟩ := List.cons.inj same
          obtain ⟨rfl, rest⟩ :=
            ih (List.not_mem_of_not_mem_cons hv) (List.not_mem_of_not_mem_cons hw) tails
          exact ⟨rfl, rest⟩

/-- Values and then an end are told when no value begins as an end does. -/
theorem Unambiguous.many (items : Unambiguous text P) (ends : Unambiguous finish Q)
    (apart : ∀ a b s t, P a → Q b → text a ++ s ≠ finish b ++ t) :
    Unambiguous (fun x : List α × β => x.1.flatMap text ++ finish x.2)
      (fun x => (∀ a ∈ x.1, P a) ∧ Q x.2) := by
  rintro ⟨as, e⟩ ⟨bs, e'⟩ ⟨has, he⟩ ⟨hbs, he'⟩ s t same
  dsimp only at has hbs he he' same
  induction as generalizing bs with
  | nil =>
      cases bs with
      | nil =>
          obtain ⟨rfl, rest⟩ := ends he he' same
          exact ⟨rfl, rest⟩
      | cons b bs =>
          simp only [List.flatMap_nil, List.nil_append, List.flatMap_cons, List.append_assoc]
            at same
          exact absurd same.symm (apart b e _ s (hbs b List.mem_cons_self) he)
  | cons a as ih =>
      obtain ⟨ha, has⟩ := List.forall_mem_cons.mp has
      cases bs with
      | nil =>
          simp only [List.flatMap_nil, List.nil_append, List.flatMap_cons, List.append_assoc]
            at same
          exact absurd same (apart a e' _ t ha he')
      | cons b bs =>
          obtain ⟨hb, hlater⟩ := List.forall_mem_cons.mp hbs
          simp only [List.flatMap_cons, List.append_assoc] at same
          obtain ⟨rfl, later⟩ := items ha hb same
          obtain ⟨hsame, rest⟩ :=
            ih bs has hlater (by simpa only [List.append_assoc] using later)
          cases hsame
          exact ⟨rfl, rest⟩

/-- Values are told from the text in which a separator stands before each. -/
theorem Unambiguous.flatMap_inj (items : Unambiguous text P) {sep : Char} {as bs : List α}
    (has : ∀ a ∈ as, P a) (hbs : ∀ b ∈ bs, P b)
    (same : as.flatMap (sep :: text ·) = bs.flatMap (sep :: text ·)) : as = bs := by
  induction as generalizing bs with
  | nil =>
      cases bs with
      | nil => rfl
      | cons b bs => cases same
  | cons a as ih =>
      obtain ⟨ha, has⟩ := List.forall_mem_cons.mp has
      cases bs with
      | nil => cases same
      | cons b bs =>
          obtain ⟨hb, hlater⟩ := List.forall_mem_cons.mp hbs
          rw [List.flatMap_cons, List.flatMap_cons, List.cons_append, List.cons_append] at same
          obtain ⟨rfl, later⟩ := items ha hb (List.tail_eq_of_cons_eq same)
          rw [ih has hlater later]

/-- Values with texts that are not empty are told from the text in which a separator stands
between them. -/
theorem Unambiguous.intercalate_inj (items : Unambiguous text P) (nonempty : ∀ a, text a ≠ [])
    {sep : Char} {as bs : List α} (has : ∀ a ∈ as, P a) (hbs : ∀ b ∈ bs, P b)
    (same : [sep].intercalate (as.map text) = [sep].intercalate (bs.map text)) : as = bs := by
  cases as with
  | nil =>
      cases bs with
      | nil => rfl
      | cons b bs =>
          rw [List.map_cons, intercalate_cons] at same
          exact absurd (List.append_eq_nil_iff.mp same.symm).1 (nonempty b)
  | cons a as =>
      obtain ⟨ha, has⟩ := List.forall_mem_cons.mp has
      cases bs with
      | nil =>
          rw [List.map_cons, intercalate_cons] at same
          exact absurd (List.append_eq_nil_iff.mp same).1 (nonempty a)
      | cons b bs =>
          obtain ⟨hb, hlater⟩ := List.forall_mem_cons.mp hbs
          simp only [List.map_cons, intercalate_cons, List.flatMap_map] at same
          obtain ⟨rfl, later⟩ := items ha hb same
          rw [items.flatMap_inj has hlater later]

end ResourceTypes.Text
