import Mathlib.Tactic.Common
import ResourceTypes.Name

/-! # Letters and digits of ASCII

The case mappings and the classes of characters are tables for all of Unicode.  On ASCII letters
and digits they are what one expects: such a character stands alone (`clusters_of_alphanum`), a
text of them is mapped character by character, and its class is that of a capital, of a small
letter or of a digit.  Facts about one such character are checked for all of them in turn
(`alphanum_cases`). -/

namespace ResourceTypes.Text

open FieldName

/-! ### One character -/

theorem isAlphanum_iff {c : Char} :
    c.isAlphanum = true ↔ (c.isUpper = true ∨ c.isLower = true) ∨ c.isDigit = true := by
  show (c.isUpper || c.isLower || c.isDigit) = true ↔ _
  rw [Bool.or_eq_true, Bool.or_eq_true]

theorem toNat_lt_of_isAlphanum {c : Char} (h : c.isAlphanum = true) : c.toNat < 0x80 := by
  have below (d : Char) (hd : d.toNat < 0x80) (hc : c.val ≤ d.val) : c.toNat < 0x80 :=
    Nat.lt_of_le_of_lt (UInt32.le_iff_toNat_le.mp hc) hd
  rcases isAlphanum_iff.mp h with (h | h) | h
  · exact below 'Z' (by decide) (of_decide_eq_true h).2
  · exact below 'z' (by decide) (of_decide_eq_true (Bool.and_eq_true_iff.mp h).2)
  · exact below '9' (by decide) (of_decide_eq_true (Bool.and_eq_true_iff.mp h).2)

/-- What holds of every letter and digit below `0x80` holds of every letter and digit. -/
theorem alphanum_cases {P : Char → Prop} {c : Char} (hc : c.isAlphanum = true)
    (h : ∀ n < 0x80, (Char.ofNat n).isAlphanum = true → P (Char.ofNat n)) : P c := by
  have hn := h c.toNat (toNat_lt_of_isAlphanum hc)
  rw [Char.ofNat_toNat] at hn
  exact hn hc

theorem isAlphanum_of_isUpper {c : Char} (h : c.isUpper = true) : c.isAlphanum = true :=
  isAlphanum_iff.mpr (.inl (.inl h))

theorem isAlphanum_of_isLower {c : Char} (h : c.isLower = true) : c.isAlphanum = true :=
  isAlphanum_iff.mpr (.inl (.inr h))

theorem isAlphanum_of_isDigit {c : Char} (h : c.isDigit = true) : c.isAlphanum = true :=
  isAlphanum_iff.mpr (.inr h)

theorem isAlphanum_of_toLower {c : Char} (h : c.toLower.isAlphanum = true) :
    c.isAlphanum = true := by
  unfold Char.toLower at h
  split at h
  next hc => exact isAlphanum_of_isUpper (decide_eq_true hc)
  next => exact h

section alphanum

variable {c : Char} (h : c.isAlphanum = true)

include h

/-- A letter or digit is neither a mark nor the joiner, all of which have higher codes. -/
theorem extendsCluster_of_alphanum : extendsCluster c = false := by
  have hlow := toNat_lt_of_isAlphanum h
  have hranges : markRanges.all (fun r => Nat.ble 0x80 r.1) = true := by decide +kernel
  have hmark : isMark c = false := by
    rw [isMark, inRanges, List.any_eq_false]
    intro r hr
    have hr := Nat.le_of_ble_eq_true (List.all_eq_true.mp hranges r hr)
    simp only [Bool.and_eq_true, Nat.ble_eq, not_and]
    omega
  have hjoiner : c ≠ '\u200D' := by
    rintro rfl
    exact absurd hlow (by decide)
  rw [extendsCluster, hmark, decide_eq_false hjoiner]
  rfl

theorem table_of_alphanum :
    isBlank c = false ∧ classOf [c] ≠ .other ∧
      (classOf [c] = .upper ↔ c.isUpper = true) ∧ (classOf [c] = .lower ↔ c.isLower = true) ∧
      (classOf [c] = .digit ↔ c.isDigit = true) := by
  refine alphanum_cases (P := fun c => isBlank c = false ∧ classOf [c] ≠ .other ∧
    (classOf [c] = .upper ↔ c.isUpper = true) ∧ (classOf [c] = .lower ↔ c.isLower = true) ∧
      (classOf [c] = .digit ↔ c.isDigit = true)) h ?_
  decide +kernel

theorem case_of_alphanum :
    (c.toLower.isAlphanum = true ∧ c.toUpper.isAlphanum = true) ∧
      (c.toLower.toLower = c.toLower ∧ c.toUpper.toLower = c.toLower) ∧
      c.toLower.toUpper = c.toUpper ∧ c.toUpper.toUpper = c.toUpper := by
  refine alphanum_cases (P := fun c =>
    (c.toLower.isAlphanum = true ∧ c.toUpper.isAlphanum = true) ∧
      (c.toLower.toLower = c.toLower ∧ c.toUpper.toLower = c.toLower) ∧
      c.toLower.toUpper = c.toUpper ∧ c.toUpper.toUpper = c.toUpper) h ?_
  decide +kernel

theorem isBlank_of_alphanum : isBlank c = false := (table_of_alphanum h).1

theorem classOf_ne_other : classOf [c] ≠ .other := (table_of_alphanum h).2.1

theorem classOf_eq_upper_iff : classOf [c] = .upper ↔ c.isUpper = true :=
  (table_of_alphanum h).2.2.1

theorem classOf_eq_lower_iff : classOf [c] = .lower ↔ c.isLower = true :=
  (table_of_alphanum h).2.2.2.1

theorem classOf_eq_digit_iff : classOf [c] = .digit ↔ c.isDigit = true :=
  (table_of_alphanum h).2.2.2.2

theorem isAlphanum_toLower : c.toLower.isAlphanum = true := (case_of_alphanum h).1.1

theorem isAlphanum_toUpper : c.toUpper.isAlphanum = true := (case_of_alphanum h).1.2

theorem toLower_toLower : c.toLower.toLower = c.toLower := (case_of_alphanum h).2.1.1

theorem toLower_toUpper : c.toUpper.toLower = c.toLower := (case_of_alphanum h).2.1.2

theorem toUpper_toLower : c.toLower.toUpper = c.toUpper := (case_of_alphanum h).2.2.1

theorem toUpper_toUpper : c.toUpper.toUpper = c.toUpper := (case_of_alphanum h).2.2.2

end alphanum

section small

variable {c : Char} (h : c.isLower = true)

include h

theorem table_of_isLower :
    c.toLower = c ∧ classOf [c] = .lower ∧ classOf [c.toUpper] = .upper ∧
      c.toUpper.isUpper = true := by
  refine alphanum_cases (P := fun c => c.isLower = true → c.toLower = c ∧ classOf [c] = .lower ∧
    classOf [c.toUpper] = .upper ∧ c.toUpper.isUpper = true) (isAlphanum_of_isLower h) ?_ h
  decide +kernel

theorem toLower_of_isLower : c.toLower = c := (table_of_isLower h).1

theorem classOf_of_isLower : classOf [c] = .lower := (table_of_isLower h).2.1

theorem classOf_toUpper_of_isLower : classOf [c.toUpper] = .upper := (table_of_isLower h).2.2.1

theorem isUpper_toUpper_of_isLower : c.toUpper.isUpper = true := (table_of_isLower h).2.2.2

end small

section digit

variable {c : Char} (h : c.isDigit = true)

include h

theorem table_of_isDigit : c.toLower = c ∧ c.toUpper = c ∧ classOf [c] = .digit := by
  refine alphanum_cases (P := fun c => c.isDigit = true →
    c.toLower = c ∧ c.toUpper = c ∧ classOf [c] = .digit) (isAlphanum_of_isDigit h) ?_ h
  decide +kernel

theorem toLower_of_isDigit : c.toLower = c := (table_of_isDigit h).1

theorem toUpper_of_isDigit : c.toUpper = c := (table_of_isDigit h).2.1

theorem classOf_of_isDigit : classOf [c] = .digit := (table_of_isDigit h).2.2

end digit

theorem not_isDigit_of_isUpper {c : Char} (h : c.isUpper = true) :
    c.isDigit = false ∧ c.isLower = false := by
  refine alphanum_cases (P := fun c => c.isUpper = true → c.isDigit = false ∧ c.isLower = false)
    (isAlphanum_of_isUpper h) ?_ h
  decide +kernel

theorem toUpper_ne_of_isLower {c : Char} (h : c.isLower = true) : c.toUpper ≠ c := fun e => by
  have hupper := (not_isDigit_of_isUpper (isUpper_toUpper_of_isLower h)).2
  rw [e, h] at hupper
  cases hupper

theorem not_isLower_of_isDigit {c : Char} (h : c.isDigit = true) : ¬ c.isLower = true := fun e => by
  have hclass := classOf_of_isDigit h
  rw [classOf_of_isLower e] at hclass
  cases hclass

/-! ### Texts -/

section texts

variable {s : List Char} (h : ∀ c ∈ s, c.isAlphanum = true)

include h

/-- Letters and digits stand alone. -/
theorem clusters_of_alphanum : clusters s = s.map fun c => [c] := by
  induction s with
  | nil => rfl
  | cons c rest ih =>
      obtain ⟨-, hrest⟩ := List.forall_mem_cons.mp h
      have hnext : rest.head?.any extendsCluster = false := by
        cases rest with
        | nil => rfl
        | cons d _ => exact extendsCluster_of_alphanum (hrest d List.mem_cons_self)
      rw [clusters, hnext, ih hrest]
      cases rest <;> rfl

theorem lower_of_alphanum : lower s = s.map Char.toLower :=
  lower_of_ascii fun c hc => toNat_lt_of_isAlphanum (h c hc)

theorem upper_of_alphanum : upper s = s.map Char.toUpper := by
  induction s with
  | nil => rfl
  | cons c rest ih =>
      obtain ⟨hc, hrest⟩ := List.forall_mem_cons.mp h
      have hrest := ih hrest
      rw [upper] at hrest ⊢
      rw [List.flatMap_cons, hrest, upperChar_of_ascii (toNat_lt_of_isAlphanum hc)]
      rfl

end texts

theorem capitalize_cons {c : Char} {rest : List Char} (h : ∀ d ∈ c :: rest, d.isAlphanum = true) :
    capitalize (c :: rest) = c.toUpper :: rest.map Char.toLower := by
  obtain ⟨hc, hrest⟩ := List.forall_mem_cons.mp h
  have hfirst : upper [c] = [c.toUpper] := upper_of_alphanum (by simpa using hc)
  have hflat : (rest.map fun c => [c]).flatten = rest := by
    rw [← clusters_of_alphanum hrest, flatten_clusters]
  rw [capitalize, clusters_of_alphanum h, List.map_cons]
  dsimp only
  rw [hfirst, hflat, lower_of_alphanum hrest]
  rfl

end ResourceTypes.Text
