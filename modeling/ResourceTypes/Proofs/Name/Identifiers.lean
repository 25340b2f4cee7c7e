import ResourceTypes.Config
import ResourceTypes.Proofs.Name.Forms
import ResourceTypes.Proofs.SymbolTable.Candidates

/-! # Identifiers

Names of types and fields begin with a capital (`isUpperCamel`), and names in tags with a small
letter (`isLowerCamel`); letters and digits follow.  An upper camel name stays one with letters
and digits after it, so that suffixes and further names may be put on (`isUpperCamel_append`,
`isUpperCamel_join`).

Every form of a snake name is an identifier, whatever its words are: a word that begins with a
digit or is empty cannot come first.  The tag of an upper camel name is lower camel, since its
first word begins with a letter (`isLowerCamel_tag_ofCamel`). -/

namespace ResourceTypes

open Text

/-- A small letter, then letters and digits. -/
def isLowerCamel (s : String) : Bool :=
  match s.toList with
  | [] => false
  | c :: rest => c.isLower && rest.all Char.isAlphanum

/-- An upper camel name, with an underscore and a number from 2 to 9 after it or without. -/
def IsTypeName (name : String) : Prop :=
  ∃ stem, isUpperCamel stem = true ∧
    (name = stem ∨ ∃ n, 2 ≤ n ∧ n ≤ 9 ∧ name = stem ++ "_" ++ toString n)

theorem isUpperCamel_iff {s : String} :
    isUpperCamel s = true ↔
      ∃ c rest, s.toList = c :: rest ∧ c.isUpper = true ∧ ∀ d ∈ rest, d.isAlphanum = true := by
  unfold isUpperCamel
  cases s.toList with
  | nil => simp
  | cons c rest => simp

theorem isLowerCamel_iff {s : String} :
    isLowerCamel s = true ↔
      ∃ c rest, s.toList = c :: rest ∧ c.isLower = true ∧ ∀ d ∈ rest, d.isAlphanum = true := by
  unfold isLowerCamel
  cases s.toList with
  | nil => simp
  | cons c rest => simp

theorem alphanum_of_isUpperCamel {s : String} (h : isUpperCamel s = true) :
    ∀ c ∈ s.toList, c.isAlphanum = true := by
  obtain ⟨c, rest, hs, hc, hrest⟩ := isUpperCamel_iff.mp h
  rw [hs]
  exact List.forall_mem_cons.mpr ⟨isAlphanum_of_isUpper hc, hrest⟩

theorem alphanum_of_isLowerCamel {s : String} (h : isLowerCamel s = true) :
    ∀ c ∈ s.toList, c.isAlphanum = true := by
  obtain ⟨c, rest, hs, hc, hrest⟩ := isLowerCamel_iff.mp h
  rw [hs]
  exact List.forall_mem_cons.mpr ⟨isAlphanum_of_isLower hc, hrest⟩

/-- Letters and digits may be put after an upper camel name. -/
theorem isUpperCamel_append {s t : String} (hs : isUpperCamel s = true)
    (ht : ∀ c ∈ t.toList, c.isAlphanum = true) : isUpperCamel (s ++ t) = true := by
  obtain ⟨c, rest, hlist, hc, hrest⟩ := isUpperCamel_iff.mp hs
  refine isUpperCamel_iff.mpr ⟨c, rest ++ t.toList, ?_, hc, ?_⟩
  · rw [String.toList_append, hlist, List.cons_append]
  · exact List.forall_mem_append.mpr ⟨hrest, ht⟩

/-- Upper camel names may be joined, with letters and digits after them. -/
theorem isUpperCamel_join {parts : List String} (hne : parts ≠ [])
    (hparts : ∀ p ∈ parts, isUpperCamel p = true) {suffix : String}
    (hsuffix : ∀ c ∈ suffix.toList, c.isAlphanum = true) :
    isUpperCamel (String.join parts ++ suffix) = true := by
  induction parts with
  | nil => exact absurd rfl hne
  | cons p parts ih =>
      obtain ⟨hp, hrest⟩ := List.forall_mem_cons.mp hparts
      rw [String.join_cons, String.append_assoc]
      refine isUpperCamel_append hp ?_
      cases parts with
      | nil => simpa using hsuffix
      | cons q parts =>
          exact alphanum_of_isUpperCamel (ih (List.cons_ne_nil q parts) hrest)

namespace FieldName

theorem isUpperCamel_camel {name : String} (h : isSnakeName name = true) :
    isUpperCamel (ofSnake name).camel = true := by
  obtain ⟨c, v, others, hc, hwords, hword, -⟩ := words_of_isSnakeName h
  obtain ⟨-, hcamel⟩ := camelWord_cons (hword _ List.mem_cons_self)
  have halpha := (alphanum_ofSnake h).1
  have hlist : (ofSnake name).camel.toList = camelWord (c :: v) ++ camelOfWords others := by
    simp only [ofSnake, hwords, String.toList_ofList, camelOfWords, List.flatMap_cons]
  rw [hcamel, List.cons_append] at hlist
  rw [hlist] at halpha
  exact isUpperCamel_iff.mpr
    ⟨_, _, hlist, isUpper_toUpper_of_isLower hc, (List.forall_mem_cons.mp halpha).2⟩

theorem isLowerCamel_tag {name : String} (h : isSnakeName name = true) :
    isLowerCamel (ofSnake name).tag = true := by
  obtain ⟨c, v, others, hc, -, -, htag⟩ := words_of_isSnakeName h
  have halpha := (alphanum_ofSnake h).2.2
  have hlist : (ofSnake name).tag.toList = c :: (v ++ others.flatMap capitalize) := by
    simp only [ofSnake, String.toList_ofList, htag, List.cons_append]
  rw [hlist] at halpha
  exact isLowerCamel_iff.mpr ⟨c, _, hlist, hc, (List.forall_mem_cons.mp halpha).2⟩

theorem isLower_toLower_of_isUpper {c : Char} (h : c.isUpper = true) :
    c.toLower.isLower = true := by
  refine alphanum_cases (P := fun c => c.isUpper = true → c.toLower.isLower = true)
    (isAlphanum_of_isUpper h) ?_ h
  decide +kernel

/-- The tag of an upper camel name is lower camel. -/
theorem isLowerCamel_tag_ofCamel {name : String} (h : isUpperCamel name = true) :
    isLowerCamel (ofCamel name).tag = true := by
  have halpha := alphanum_of_isUpperCamel h
  have htags := alphanum_tag_ofCamel halpha
  obtain ⟨c, rest, hlist, hc, -⟩ := isUpperCamel_iff.mp h
  obtain rfl : name = String.ofList (c :: rest) := by rw [← hlist, String.ofList_toList]
  rw [hlist] at halpha
  have htag := tag_ofCamel halpha
  rw [htag, String.toList_ofList] at htags
  refine isLowerCamel_iff.mpr ⟨c.toLower, _, ?_, isLower_toLower_of_isUpper hc,
    (List.forall_mem_cons.mp htags).2⟩
  rw [htag, String.toList_ofList]

end FieldName

/-! ### Candidates for type names -/

/-- A candidate along a chain of upper camel names is a type name. -/
theorem SymbolTable.IsCandidate.isTypeName {suffix name : String} {chain : List String}
    (h : IsCandidate suffix chain name) (hne : chain ≠ [])
    (hchain : ∀ x ∈ chain, isUpperCamel x = true)
    (hsuffix : ∀ c ∈ suffix.toList, c.isAlphanum = true) : IsTypeName name := by
  obtain ⟨part, hpart, hend, rfl⟩ | ⟨n, hn, rfl⟩ := h
  · have hparts : ∀ x ∈ part, isUpperCamel x = true := fun x hx => hchain x (hend.subset hx)
    exact ⟨_, isUpperCamel_join hpart hparts hsuffix, .inl rfl⟩
  · have bounds : ∀ n ∈ numbers, 2 ≤ n ∧ n ≤ 9 := by decide
    obtain ⟨hlow, hhigh⟩ := bounds n hn
    exact ⟨_, isUpperCamel_join hne hchain hsuffix, .inr ⟨n, hlow, hhigh, rfl⟩⟩

end ResourceTypes
