import Mathlib.Data.List.Basic
import ResourceTypes.Declaration.ValueType

/-! # Reading value types

The spelling of a type is read back by its beginning: a star, brackets or the beginning of a map
stand before an inner type, and any other text is one of seven fixed types or a name
(`ValueType.read`).  So types are told by their spellings when the names in them are identifiers
and no scalar types (`ValueType.text_inj`). -/

namespace ResourceTypes

/-! ### Identifiers -/

/-- A letter, a digit or an underscore. -/
def isIdentifierChar (c : Char) : Bool := c.isAlphanum || c == '_'

/-- A letter or an underscore, then letters, digits and underscores. -/
def isIdentifier (s : String) : Bool :=
  match s.toList with
  | [] => false
  | c :: rest => (c.isAlpha || c == '_') && rest.all isIdentifierChar

theorem isIdentifierChar_of_isIdentifier {s : String} (h : isIdentifier s = true) :
    ∀ c ∈ s.toList, isIdentifierChar c = true := by
  unfold isIdentifier at h
  split at h
  next hs => simp [hs]
  next c rest hs =>
    rw [hs]
    obtain ⟨hc, hrest⟩ := (Bool.and_eq_true _ _).mp h
    refine List.forall_mem_cons.mpr ⟨?_, List.all_eq_true.mp hrest⟩
    rw [isIdentifierChar, Char.isAlphanum, Bool.or_right_comm, hc, Bool.true_or]

theorem not_mem_of_isIdentifier {s : String} (h : isIdentifier s = true) {c : Char}
    (hc : isIdentifierChar c = false) : c ∉ s.toList := fun hmem => by
  rw [isIdentifierChar_of_isIdentifier h c hmem] at hc
  cases hc

theorem ne_nil_of_isIdentifier {s : String} (h : isIdentifier s = true) : s.toList ≠ [] := by
  unfold isIdentifier at h
  split at h
  next => cases h
  next hs => rw [hs]; exact List.cons_ne_nil _ _

/-! ### Types -/

/-- All scalar types. -/
def Primitive.all : List Primitive := [.bool, .float64, .int64, .string]

namespace ValueType

/-- The name that a type mentions is an identifier and no scalar type. -/
def Legible (t : ValueType) : Prop :=
  ∀ n ∈ t.named?, isIdentifier n = true ∧ n ∉ Primitive.all.map Primitive.text

instance (t : ValueType) : Decidable t.Legible :=
  inferInstanceAs (Decidable (∀ n ∈ t.named?, _))

/-- The types without an inner type and without a name. -/
def fixed : List ValueType :=
  Primitive.all.map .primitive ++ [.secretKeySelector, .reference, .selector]

/-- The type without an inner type that has the spelling. -/
def readFlat (s : List Char) : ValueType :=
  (fixed.find? fun t => t.text.toList == s).getD (.named (String.ofList s))

/-- The type with the spelling. -/
def read : List Char → ValueType
  | '*' :: inner => .pointer (read inner)
  | '[' :: ']' :: inner => .list (read inner)
  | 'm' :: 'a' :: 'p' :: '[' :: 's' :: 't' :: 'r' :: 'i' :: 'n' :: 'g' :: ']' :: inner =>
    .map (read inner)
  | s => readFlat s

theorem read_flat {s : List Char} (star : '*' ∉ s) (bracket : '[' ∉ s) :
    read s = readFlat s := by
  unfold read
  split
  · simp at star
  · simp at bracket
  · simp at bracket
  · rfl

theorem readFlat_named {name : String} (h : (named name).Legible) :
    readFlat name.toList = .named name := by
  obtain ⟨identifier, scalar⟩ := h name rfl
  have dotted : ∀ t ∈ [secretKeySelector, reference, selector], '.' ∈ t.text.toList := by decide
  have unfixed : ∀ t ∈ fixed, t.text ≠ name := by
    intro t ht same
    obtain ht | ht := List.mem_append.mp ht
    · obtain ⟨p, hp, rfl⟩ := List.mem_map.mp ht
      exact scalar (same ▸ List.mem_map_of_mem hp)
    · exact not_mem_of_isIdentifier identifier rfl (same ▸ dotted t ht)
  rw [readFlat, List.find?_eq_none.mpr fun t ht => ?_, Option.getD_none, String.ofList_toList]
  rw [beq_iff_eq, String.toList_inj]
  exact unfixed t ht

/-- A legible type is read back from its spelling. -/
theorem read_text {t : ValueType} (h : t.Legible) : read t.text.toList = t := by
  induction t with
  | primitive kind => cases kind <;> decide
  | pointer inner ih =>
      rw [text, String.toList_append]
      exact congrArg pointer (ih h)
  | named name =>
      have identifier := (h name rfl).1
      rw [text, read_flat (not_mem_of_isIdentifier identifier rfl)
        (not_mem_of_isIdentifier identifier rfl), readFlat_named h]
  | list inner ih =>
      rw [text, String.toList_append]
      exact congrArg list (ih h)
  | map inner ih =>
      rw [text, String.toList_append]
      exact congrArg map (ih h)
  | secretKeySelector => decide
  | reference => decide
  | selector => decide

theorem text_inj {t t' : ValueType} (h : t.Legible) (h' : t'.Legible)
    (same : t.text.toList = t'.text.toList) : t = t' := by
  rw [← read_text h, same, read_text h']

theorem not_mem_text {t : ValueType} (h : t.Legible) : ' ' ∉ t.text.toList := by
  induction t with
  | primitive kind => cases kind <;> decide
  | named name => exact not_mem_of_isIdentifier (h name rfl).1 rfl
  | pointer inner ih => simpa [text] using ih h
  | list inner ih => simpa [text] using ih h
  | map inner ih => simpa [text] using ih h
  | secretKeySelector => decide
  | reference => decide
  | selector => decide

end ValueType

end ResourceTypes
