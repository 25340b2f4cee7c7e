import Mathlib.Data.List.DropRight
import ResourceTypes.Text.Blank

/-! # Trimmed texts

A text is `Trimmed` when neither its first nor its last character is blank.  Trimming gives such
a text (`trimmed_trim`) and leaves it as it is (`Trimmed.trim_eq`).  Trimming the end first does not
change what is left (`trim_trimEnd`). -/

namespace ResourceTypes.Text

/-- Neither end of the text is blank. -/
structure Trimmed (s : List Char) : Prop where
  head : ∀ c ∈ s.head?, isBlank c = false
  last : ∀ c ∈ s.getLast?, isBlank c = false

theorem head?_dropWhile {α : Type} (p : α → Bool) (l : List α) :
    ∀ a ∈ (l.dropWhile p).head?, p a = false := by
  intro a ha
  have hfirst := List.head?_dropWhile_not p l
  rw [Option.mem_def.mp ha] at hfirst
  exact hfirst

theorem dropWhile_isBlank_of_head? {s : List Char} (h : ∀ c ∈ s.head?, isBlank c = false) :
    s.dropWhile isBlank = s := by
  cases s with
  | nil => rfl
  | cons c s => rw [List.dropWhile_cons_of_neg (by simp [h c rfl])]

theorem getLast?_trimEnd (s : List Char) : ∀ c ∈ (trimEnd s).getLast?, isBlank c = false := by
  rw [trimEnd, List.getLast?_reverse]
  exact head?_dropWhile isBlank _

theorem trimEnd_append {s after : List Char} (h : ∀ c ∈ s.getLast?, isBlank c = false)
    (hafter : blank after = true) : trimEnd (s ++ after) = s := by
  rw [trimEnd, List.reverse_append, List.dropWhile_append_of_pos fun c hc =>
    List.all_eq_true.mp hafter c (List.mem_reverse.mp hc), dropWhile_isBlank_of_head?,
    List.reverse_reverse]
  rwa [List.head?_reverse]

theorem trimEnd_trimEnd (s : List Char) : trimEnd (trimEnd s) = trimEnd s :=
  List.rdropWhile_idempotent isBlank s

/-- Trimming leaves no blank at either end. -/
theorem trimmed_trim (s : List Char) : Trimmed (trim s) where
  head := by
    intro c hc
    -- The first character that is left stands at the start before the end is trimmed, too.
    obtain ⟨cut, hcut⟩ : trim s <+: trimStart s := List.rdropWhile_prefix isBlank _
    obtain ⟨rest, hrest⟩ := List.head?_eq_some_iff.mp hc
    refine head?_dropWhile isBlank s c ?_
    rw [show s.dropWhile isBlank = _ from hcut.symm, hrest]
    rfl
  last := getLast?_trimEnd _

/-- A trimmed text stays as it is. -/
theorem Trimmed.trim_eq {s : List Char} (h : Trimmed s) : trim s = s := by
  have hlast : ∀ c ∈ s.reverse.head?, isBlank c = false := by
    rw [List.head?_reverse]
    exact h.last
  rw [trim, trimStart, dropWhile_isBlank_of_head? h.head, trimEnd,
    dropWhile_isBlank_of_head? hlast, List.reverse_reverse]

theorem trimmed_of_forall {s : List Char} (h : ∀ c ∈ s, isBlank c = false) : Trimmed s :=
  ⟨fun c hc => h c (List.mem_of_mem_head? hc), fun c hc => h c (List.mem_of_mem_getLast? hc)⟩

theorem exists_trim (s : List Char) :
    ∃ before after, blank before = true ∧ blank after = true ∧ s = before ++ trim s ++ after := by
  refine ⟨s.takeWhile isBlank, (trimStart s).rtakeWhile isBlank, ?_, ?_, ?_⟩
  · exact List.all_takeWhile
  · rw [blank, List.rtakeWhile, List.all_reverse]
    exact List.all_takeWhile
  · have hend : trim s ++ (trimStart s).rtakeWhile isBlank = trimStart s := by
      rw [trim, trimEnd, List.rtakeWhile, ← List.reverse_append, List.takeWhile_append_dropWhile,
        List.reverse_reverse]
    rw [List.append_assoc, hend, trimStart, List.takeWhile_append_dropWhile]

/-- Blanks around a text with trimmed ends are cut off. -/
theorem Trimmed.trim_append {s before after : List Char} (h : Trimmed s) (hne : s ≠ [])
    (hbefore : blank before = true) (hafter : blank after = true) :
    trim (before ++ s ++ after) = s := by
  have hstart : trimStart (before ++ s ++ after) = s ++ after := by
    rw [trimStart, List.append_assoc, List.dropWhile_append_of_pos (List.all_eq_true.mp hbefore)]
    refine dropWhile_isBlank_of_head? ?_
    rw [List.head?_append_of_ne_nil s hne]
    exact h.head
  rw [trim, hstart, trimEnd_append h.last hafter]

theorem trim_eq_nil_iff {s : List Char} : trim s = [] ↔ blank s = true := by
  constructor
  · intro h
    obtain ⟨before, after, hbefore, hafter, hs⟩ := exists_trim s
    rw [hs, h, List.append_nil, blank, List.all_append, Bool.and_eq_true]
    exact ⟨hbefore, hafter⟩
  · intro h
    rw [trim, trimStart_eq_nil_iff.mpr h]
    rfl

/-- Blanks at the end do not matter where both ends are trimmed. -/
theorem trim_trimEnd (s : List Char) : trim (trimEnd s) = trim s := by
  by_cases hempty : trim s = []
  · have hend : trimEnd s = [] := trimEnd_append (s := []) (by simp) (trim_eq_nil_iff.mp hempty)
    rw [hend, hempty, trim_nil]
  · obtain ⟨before, after, hbefore, hafter, hs⟩ := exists_trim s
    have hlast : ∀ c ∈ (before ++ trim s).getLast?, isBlank c = false := by
      rw [List.getLast?_append_of_ne_nil _ hempty]
      exact (trimmed_trim s).last
    have hend : trimEnd s = before ++ trim s := by
      conv_lhs => rw [hs]
      exact trimEnd_append hlast hafter
    have hnone : blank [] = true := rfl
    have hkept := (trimmed_trim s).trim_append hempty hbefore hnone
    rwa [List.append_nil, ← hend] at hkept

end ResourceTypes.Text
