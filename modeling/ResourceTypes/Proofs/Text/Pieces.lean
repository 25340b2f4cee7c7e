import Mathlib.Data.List.Basic
import ResourceTypes.Text.Lines

/-! # Pieces between separators

Cutting at separators is the inverse of joining texts without them (`pieces_join`).  By
`pieces_cons` the pieces of a text follow from those of its tail, so that facts about all pieces
are inductions on the text; one is that the pieces make up the text (`exists_pieces`). -/

namespace ResourceTypes.Text

variable {sep : Char}

/-- Texts without separators are the pieces of the text that joins them. -/
theorem pieces_join {first : List Char} {others : List (List Char)} (hfirst : sep ∉ first)
    (hothers : ∀ s ∈ others, sep ∉ s) :
    pieces sep (first ++ others.flatMap (sep :: ·)) = first :: others := by
  induction others generalizing first with
  | nil => rw [List.flatMap_nil, List.append_nil, pieces_of_not_mem hfirst]
  | cons s others ih =>
      obtain ⟨hs, hothers⟩ := List.forall_mem_cons.mp hothers
      rw [List.flatMap_cons, List.cons_append, pieces_append, pieces_of_not_mem hfirst,
        ih hs hothers, List.singleton_append]

theorem intercalate_cons (first : List Char) (others : List (List Char)) :
    [sep].intercalate (first :: others) = first ++ others.flatMap (sep :: ·) := by
  induction others generalizing first with
  | nil => simp [List.intercalate]
  | cons s others ih =>
      have hrest := ih s
      rw [List.flatMap_cons, List.cons_append, ← hrest]
      simp [List.intercalate]

/-- A character that is no separator begins the first piece. -/
theorem pieces_cons {c : Char} (hc : c ≠ sep) (s : List Char) :
    ∃ first others, pieces sep s = first :: others ∧
      pieces sep (c :: s) = (c :: first) :: others := by
  -- A separator in `s` ends the first piece; without one, `s` is the only piece.
  by_cases hs : sep ∈ s
  · obtain ⟨a, b, rfl, ha⟩ := List.eq_append_cons_of_mem hs
    have hca : sep ∉ c :: a := by simp [ha, hc.symm]
    refine ⟨a, pieces sep b, ?_, ?_⟩
    · rw [pieces_append, pieces_of_not_mem ha, List.singleton_append]
    · rw [← List.cons_append, pieces_append, pieces_of_not_mem hca, List.singleton_append]
  · refine ⟨s, [], pieces_of_not_mem hs, pieces_of_not_mem ?_⟩
    simp [hs, hc.symm]

/-- A text is its pieces with a separator before each but the first. -/
theorem exists_pieces (sep : Char) (s : List Char) :
    ∃ first others, pieces sep s = first :: others ∧ s = first ++ others.flatMap (sep :: ·) := by
  induction s with
  | nil => exact ⟨[], [], rfl, rfl⟩
  | cons c s ih =>
      obtain ⟨first, others, hpieces, hs⟩ := ih
      by_cases hc : c = sep
      · subst hc
        refine ⟨[], first :: others, ?_, by rw [hs]; rfl⟩
        rw [show c :: s = [] ++ c :: s from rfl, pieces_append, hpieces]
        rfl
      · obtain ⟨first', others', hpieces', hcons⟩ := pieces_cons hc s
        rw [hpieces, List.cons.injEq] at hpieces'
        obtain ⟨rfl, rfl⟩ := hpieces'
        exact ⟨c :: first, others, hcons, congrArg (c :: ·) hs⟩

theorem getLast?_of_pieces {s last : List Char} {init : List (List Char)}
    (h : pieces sep s = init ++ [last]) (hlast : last ≠ []) : last.getLast? = s.getLast? := by
  obtain ⟨c, tail, rfl⟩ := List.exists_cons_of_ne_nil hlast
  obtain ⟨first, others, hpieces, rfl⟩ := exists_pieces sep s
  rw [hpieces] at h
  rcases List.eq_nil_or_concat others with rfl | ⟨between, last', rfl⟩
  · obtain ⟨-, hsame⟩ := List.append_inj' (show [] ++ [first] = init ++ [c :: tail] from h) rfl
    rw [List.singleton_inj.mp hsame, List.flatMap_nil, List.append_nil]
  · rw [List.concat_eq_append, ← List.cons_append] at h
    obtain ⟨-, hsame⟩ := List.append_inj' h rfl
    rw [List.singleton_inj.mp hsame, List.concat_eq_append, List.flatMap_append,
      List.flatMap_singleton, ← List.append_assoc, List.getLast?_append_cons,
      List.getLast?_cons_cons]

theorem mem_pieces {s piece : List Char} (h : piece ∈ pieces sep s) :
    ∀ c ∈ piece, c ∈ s ∧ c ≠ sep := by
  induction s generalizing piece with
  | nil =>
      rw [List.mem_singleton.mp h]
      simp
  | cons d s ih =>
      intro c hc
      by_cases hd : d = sep
      · subst hd
        rw [show d :: s = [] ++ d :: s from rfl, pieces_append] at h
        rcases List.mem_cons.mp h with rfl | h
        · cases hc
        · exact (ih h c hc).imp_left (List.mem_cons_of_mem d)
      · obtain ⟨first, others, hs, hcons⟩ := pieces_cons hd s
        rw [hcons] at h
        rcases List.mem_cons.mp h with rfl | h
        · rcases List.mem_cons.mp hc with rfl | hc
          · exact ⟨List.mem_cons_self, hd⟩
          · exact (ih (hs ▸ List.mem_cons_self) c hc).imp_left (List.mem_cons_of_mem d)
        · exact (ih (hs ▸ List.mem_cons_of_mem first h) c hc).imp_left (List.mem_cons_of_mem d)

theorem flatten_pieces (sep : Char) (s : List Char) :
    (pieces sep s).flatten = s.filter (· != sep) := by
  induction s with
  | nil => rfl
  | cons c s ih =>
      by_cases hc : c = sep
      · subst hc
        rw [show c :: s = [] ++ c :: s from rfl, pieces_append, List.flatten_append, ih,
          List.nil_append, List.filter_cons_of_neg (by simp)]
        rfl
      · obtain ⟨first, others, hs, hcons⟩ := pieces_cons hc s
        rw [hs, List.flatten_cons] at ih
        rw [hcons, List.flatten_cons, List.cons_append, ih,
          List.filter_cons_of_pos (by simpa using hc)]

/-! ### Lines -/

theorem dropReturn_subset (line : List Char) : dropReturn line ⊆ line := by
  unfold dropReturn
  split
  next kept h =>
    intro c hc
    rw [List.mem_reverse] at hc
    rw [← List.mem_reverse, h]
    exact List.mem_cons_of_mem _ hc
  next => exact List.Subset.refl line

theorem subset_of_mem_linesOfPieces {ps : List (List Char)} {line : List Char}
    (h : line ∈ linesOfPieces ps) : ∃ piece ∈ ps, line ⊆ piece := by
  induction ps using linesOfPieces.induct with
  | case1 => cases h
  | case2 last hempty =>
      rw [linesOfPieces, if_pos hempty] at h
      cases h
  | case3 last hempty =>
      rw [linesOfPieces, if_neg hempty] at h
      exact ⟨line, h, List.Subset.refl line⟩
  | case4 piece rest hrest ih =>
      rw [linesOfPieces] at h
      · rcases List.mem_cons.mp h with rfl | h
        · exact ⟨piece, List.mem_cons_self, dropReturn_subset piece⟩
        · obtain ⟨piece', hmem, hsub⟩ := ih h
          exact ⟨piece', List.mem_cons_of_mem piece hmem, hsub⟩
      · exact hrest

theorem not_mem_of_mem_lines {s line : List Char} (h : line ∈ lines s) : '\n' ∉ line := fun hc => by
  obtain ⟨piece, hmem, hsub⟩ := subset_of_mem_linesOfPieces h
  exact (mem_pieces hmem '\n' (hsub hc)).2 rfl

theorem dropReturn_of_getLast? {line : List Char} (h : line.getLast? ≠ some '\r') :
    dropReturn line = line := by
  unfold dropReturn
  split
  next kept hreverse =>
    rw [← List.head?_reverse, hreverse] at h
    exact absurd rfl h
  next => rfl

theorem linesOfPieces_eq_self {ps : List (List Char)}
    (hreturn : ∀ p ∈ ps, p.getLast? ≠ some '\r') (hlast : ps.getLast? ≠ some []) :
    linesOfPieces ps = ps := by
  induction ps using linesOfPieces.induct with
  | case1 => rfl
  | case2 last hempty =>
      rw [List.isEmpty_iff] at hempty
      subst hempty
      exact absurd rfl hlast
  | case3 last hempty => rw [linesOfPieces, if_neg hempty]
  | case4 piece rest hrest ih =>
      obtain ⟨hpiece, hreturn⟩ := List.forall_mem_cons.mp hreturn
      have hne : rest ≠ [] := hrest
      rw [linesOfPieces, dropReturn_of_getLast? hpiece, ih hreturn]
      · rwa [List.getLast?_cons_of_ne_nil hne] at hlast
      · exact hrest

/-- Lines are read back from the text that joins them, unless the last one is empty. -/
theorem lines_intercalate {ls : List (List Char)} (hfeed : ∀ l ∈ ls, '\n' ∉ l)
    (hreturn : ∀ l ∈ ls, l.getLast? ≠ some '\r') (hlast : ls.getLast? ≠ some []) :
    lines (['\n'].intercalate ls) = ls := by
  cases ls with
  | nil => rfl
  | cons first others =>
      obtain ⟨hfirst, hothers⟩ := List.forall_mem_cons.mp hfeed
      rw [lines, intercalate_cons, pieces_join hfirst hothers, linesOfPieces_eq_self hreturn hlast]

/-! ### Cutting once -/

theorem cutAt_append {before : List Char} (h : sep ∉ before) (after : List Char) :
    cutAt sep (before ++ sep :: after) = some (before, after) := by
  induction before with
  | nil => simp [cutAt]
  | cons c before ih =>
      obtain ⟨hc, hbefore⟩ := not_or.mp (mt List.mem_cons.mpr h)
      simp [cutAt, Ne.symm hc, ih hbefore]

theorem cutAt_of_not_mem {s : List Char} (h : sep ∉ s) : cutAt sep s = none := by
  induction s with
  | nil => rfl
  | cons c s ih =>
      obtain ⟨hc, hs⟩ := not_or.mp (mt List.mem_cons.mpr h)
      simp [cutAt, Ne.symm hc, ih hs]

end ResourceTypes.Text
