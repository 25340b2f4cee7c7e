import ResourceTypes.Proofs.Name.Camel

/-! # The forms of a name compared

All forms of a name of small letters, digits and underscores are made of its words, so that up to
case they are the name without its underscores (`uncased_ofSnake`); up to case the tag of a camel
name is that name (`uncased_tag_ofCamel`).  Hence each of them is a text of letters and digits, and
names that share a form differ in underscores alone (`letters_determined`).

The lower camel form and the tag, which both begin with the first word as it is, differ in acronyms
alone (`lowerCamel_eq_tag_iff`). -/

namespace ResourceTypes.FieldName

open Text

/-! ### Names up to case -/

/-- The characters of a name in lower case. -/
def uncased (name : String) : List Char := name.toList.map Char.toLower

theorem uncased_append (name more : String) :
    uncased (name ++ more) = uncased name ++ uncased more := by
  rw [uncased, String.toList_append, List.map_append]
  rfl

theorem alphanum_of_uncased {name : String} (h : ∀ c ∈ uncased name, c.isAlphanum = true) :
    ∀ c ∈ name.toList, c.isAlphanum = true :=
  fun _ hc => isAlphanum_of_toLower (h _ (List.mem_map_of_mem hc))

theorem uncased_forms {w : List Char} (h : ∀ c ∈ w, c.isLower = true ∨ c.isDigit = true) :
    (camelWord w).map Char.toLower = w ∧ (capitalize w).map Char.toLower = w := by
  cases w with
  | nil => exact ⟨by decide, by decide⟩
  | cons c v =>
      have hw : IsWord (c :: v) := ⟨List.cons_ne_nil c v, h⟩
      obtain ⟨hcap, hcamel⟩ := camelWord_cons hw
      obtain ⟨hc, hv⟩ := List.forall_mem_cons.mp hw.alphanum
      obtain ⟨hlower, hlowers⟩ := List.cons.inj hw.map_toLower
      have hcapitals : (v.map Char.toUpper).map Char.toLower = v.map Char.toLower := by
        rw [List.map_map]
        exact List.map_congr_left fun d hd => toLower_toUpper (hv d hd)
      rw [hcap, hcamel, List.map_cons, List.map_cons, toLower_toUpper hc, hlower, hlowers]
      split
      · rw [hcapitals, hlowers]
        exact ⟨rfl, rfl⟩
      · rw [hlowers]
        exact ⟨rfl, rfl⟩

theorem map_toLower_flatMap {words : List (List Char)} {form : List Char → List Char}
    (h : ∀ w ∈ words, (form w).map Char.toLower = w) :
    (words.flatMap form).map Char.toLower = words.flatten := by
  rw [List.map_flatMap, List.flatMap_congr h, List.flatMap_id']

/-- The characters of a name but for its underscores. -/
def letters (name : String) : List Char := name.toList.filter (· != '_')

/-- Up to case all forms of a snake text are its letters. -/
theorem uncased_ofSnake {name : String} (h : IsSnakeText name) :
    uncased (ofSnake name).camel = letters name ∧
      uncased (ofSnake name).lowerCamel = letters name ∧
      uncased (ofSnake name).tag = letters name := by
  obtain ⟨hpieces, hwords⟩ := h.pieces
  have hflat : (snakeWords name.toList).flatten = letters name := by
    rw [hwords, List.flatten_filter_not_isEmpty, flatten_pieces, letters]
  have hsmall : ∀ w ∈ snakeWords name.toList, ∀ c ∈ w, c.isLower = true ∨ c.isDigit = true :=
    fun w hw => (hpieces w (List.mem_of_mem_filter (hwords ▸ hw))).1
  refine ⟨?_, ?_, ?_⟩
  · simp only [uncased, ofSnake, String.toList_ofList, camelOfWords]
    rw [map_toLower_flatMap fun w hw => (uncased_forms (hsmall w hw)).1, hflat]
  · simp only [uncased, ofSnake, String.toList_ofList]
    rw [← hflat]
    cases hlist : snakeWords name.toList with
    | nil => rfl
    | cons first others =>
        rw [hlist] at hsmall
        obtain ⟨hfirst, hothers⟩ := List.forall_mem_cons.mp hsmall
        rw [lowerCamelOfWords, List.map_append, map_toLower_of_small hfirst, camelOfWords,
          map_toLower_flatMap fun w hw => (uncased_forms (hothers w hw)).1, List.flatten_cons]
  · simp only [uncased, ofSnake, String.toList_ofList, tagOfSnake]
    rw [letters, ← flatten_pieces]
    cases hlist : pieces '_' name.toList with
    | nil => rfl
    | cons first others =>
        rw [hlist] at hpieces
        obtain ⟨⟨hfirst, hlower⟩, hothers⟩ := List.forall_mem_cons.mp hpieces
        dsimp only
        rw [List.map_append, hlower, map_toLower_of_small hfirst,
          map_toLower_flatMap fun w hw => (uncased_forms (hothers w hw).1).2, List.flatten_cons]

theorem IsSnakeText.alphanum_letters {name : String} (h : IsSnakeText name) :
    ∀ c ∈ letters name, c.isAlphanum = true := by
  intro c hc
  obtain ⟨hmem, hne⟩ := List.mem_filter.mp hc
  have hsmall := (h c hmem).resolve_right (by simpa using hne)
  exact hsmall.elim isAlphanum_of_isLower isAlphanum_of_isDigit

theorem IsSnakeText.alphanum {name : String} (h : IsSnakeText name) :
    (∀ c ∈ (ofSnake name).camel.toList, c.isAlphanum = true) ∧
      (∀ c ∈ (ofSnake name).lowerCamel.toList, c.isAlphanum = true) ∧
      ∀ c ∈ (ofSnake name).tag.toList, c.isAlphanum = true := by
  obtain ⟨hcamel, hlowerCamel, htag⟩ := uncased_ofSnake h
  have halpha := h.alphanum_letters
  exact ⟨alphanum_of_uncased (hcamel ▸ halpha), alphanum_of_uncased (hlowerCamel ▸ halpha),
    alphanum_of_uncased (htag ▸ halpha)⟩

theorem alphanum_ofSnake {name : String} (h : isSnakeName name = true) :
    (∀ c ∈ (ofSnake name).camel.toList, c.isAlphanum = true) ∧
      (∀ c ∈ (ofSnake name).lowerCamel.toList, c.isAlphanum = true) ∧
      ∀ c ∈ (ofSnake name).tag.toList, c.isAlphanum = true :=
  (isSnakeName_iff.mp h).1.alphanum

theorem lowerCamel_ne_empty {name : String} (h : isSnakeName name = true) :
    (ofSnake name).lowerCamel ≠ "" := by
  obtain ⟨htext, c, hhead, hc⟩ := isSnakeName_iff.mp h
  obtain ⟨-, hlowerCamel, -⟩ := uncased_ofSnake htext
  have hmem : c ∈ letters name := by
    refine List.mem_filter.mpr ⟨List.mem_of_mem_head? hhead, bne_iff_ne.mpr ?_⟩
    rintro rfl
    cases hc
  intro hempty
  rw [← hlowerCamel, hempty] at hmem
  cases hmem

theorem map_toLower_recase (prev : LetterClass) {s : List Char}
    (h : ∀ c ∈ s, c.isAlphanum = true) : (recase prev s).map Char.toLower = s.map Char.toLower := by
  induction s generalizing prev with
  | nil => rfl
  | cons c s ih =>
      obtain ⟨hc, hs⟩ := List.forall_mem_cons.mp h
      rw [recase, List.map_cons, ih _ hs, List.map_cons]
      split
      · rw [toLower_toUpper hc]
      · rw [toLower_toLower hc]

/-- Up to case the tag of a camel name is the name. -/
theorem uncased_tag_ofCamel {name : String} (h : ∀ c ∈ name.toList, c.isAlphanum = true) :
    uncased (ofCamel name).tag = uncased name := by
  obtain ⟨s, rfl⟩ : ∃ s, name = String.ofList s := ⟨name.toList, String.ofList_toList.symm⟩
  rw [String.toList_ofList] at h
  cases s with
  | nil => decide
  | cons c rest =>
      obtain ⟨hc, hrest⟩ := List.forall_mem_cons.mp h
      rw [tag_ofCamel h, uncased, uncased, String.toList_ofList, String.toList_ofList,
        List.map_cons, List.map_cons, map_toLower_recase _ hrest, toLower_toLower hc]

theorem alphanum_tag_ofCamel {name : String} (h : ∀ c ∈ name.toList, c.isAlphanum = true) :
    ∀ c ∈ (ofCamel name).tag.toList, c.isAlphanum = true := by
  refine alphanum_of_uncased fun c hc => ?_
  rw [uncased_tag_ofCamel h] at hc
  obtain ⟨d, hd, rfl⟩ := List.mem_map.mp hc
  exact isAlphanum_toLower (h d hd)

/-! ### Names that share a form -/

/-- In lower case all forms are the name without its underscores, so that two names that share a
form are the same but for underscores. -/
theorem letters_determined {name other : String} (h : IsSnakeText name) (h' : IsSnakeText other) :
    (lower (ofSnake name).camel.toList = letters name ∧
      lower (ofSnake name).lowerCamel.toList = letters name ∧
      lower (ofSnake name).tag.toList = letters name) ∧
    ((ofSnake name).camel = (ofSnake other).camel ∨
      (ofSnake name).lowerCamel = (ofSnake other).lowerCamel ∨
      (ofSnake name).tag = (ofSnake other).tag → letters name = letters other) := by
  obtain ⟨hcamel, hlowerCamel, htag⟩ := uncased_ofSnake h
  obtain ⟨hcamel', hlowerCamel', htag'⟩ := uncased_ofSnake h'
  obtain ⟨acamel, alowerCamel, atag⟩ := h.alphanum
  refine ⟨⟨?_, ?_, ?_⟩, ?_⟩
  · rw [lower_of_alphanum acamel, ← hcamel, uncased]
  · rw [lower_of_alphanum alowerCamel, ← hlowerCamel, uncased]
  · rw [lower_of_alphanum atag, ← htag, uncased]
  · rintro (same | same | same)
    · rw [← hcamel, same, hcamel']
    · rw [← hlowerCamel, same, hlowerCamel']
    · rw [← htag, same, htag']

/-- Names with underscores at their ends and in a row, an acronym and a digit in front. -/
theorem letters_determined_underscores :
    IsSnakeText "_4_api__url" ∧ IsSnakeText "4_api_url_" ∧
      (ofSnake "_4_api__url").camel = "4APIURL" ∧ (ofSnake "4_api_url_").camel = "4APIURL" ∧
      lower (ofSnake "_4_api__url").tag.toList = "4apiurl".toList ∧
      letters "_4_api__url" = letters "4_api_url_" := by
  have h : IsSnakeText "_4_api__url" := by decide
  have h' : IsSnakeText "4_api_url_" := by decide
  have hcamel : (ofSnake "_4_api__url").camel = "4APIURL" := by decide +kernel
  have hcamel' : (ofSnake "4_api_url_").camel = "4APIURL" := by decide +kernel
  obtain ⟨⟨-, -, htag⟩, same⟩ := letters_determined h h'
  exact ⟨h, h', hcamel, hcamel', htag, same (.inl (hcamel.trans hcamel'.symm))⟩

/-! ### Acronyms -/

/-- No word of the name after the first is an acronym. -/
def AcronymFree (name : String) : Prop := ∀ w ∈ (snakeWords name.toList).tail, w ∉ acronyms

instance (name : String) : Decidable (AcronymFree name) :=
  inferInstanceAs (Decidable (∀ w ∈ (snakeWords name.toList).tail, w ∉ acronyms))

theorem camelWord_ne_capitalize : ∀ w ∈ acronyms, camelWord w ≠ capitalize w := by decide +kernel

theorem camelWord_eq_capitalize {w : List Char} (h : w ∉ acronyms) :
    camelWord w = capitalize w := by
  simp only [camelWord, List.contains_iff_mem, h, if_false]

theorem camelOfWords_eq_iff {words : List (List Char)} (hwords : ∀ w ∈ words, IsWord w) :
    camelOfWords words = words.flatMap capitalize ↔ ∀ w ∈ words, w ∉ acronyms := by
  constructor
  · intro h
    induction words with
    | nil => simp
    | cons w words ih =>
        obtain ⟨hw, hrest⟩ := List.forall_mem_cons.mp hwords
        obtain ⟨hcamel, hcapital⟩ := uncased_forms hw.chars
        have hlen : (camelWord w).length = (capitalize w).length := by
          simpa using congrArg List.length (hcamel.trans hcapital.symm)
        rw [camelOfWords, List.flatMap_cons, List.flatMap_cons] at h
        obtain ⟨hfirst, hothers⟩ := List.append_inj h hlen
        exact List.forall_mem_cons.mpr
          ⟨fun hacronym => camelWord_ne_capitalize w hacronym hfirst, ih hrest hothers⟩
  · exact fun h => List.flatMap_congr fun w hw => camelWord_eq_capitalize (h w hw)

/-- The lower camel form is the tag exactly when no word after the first is an acronym. -/
theorem lowerCamel_eq_tag_iff {name : String} (h : isSnakeName name = true) :
    (ofSnake name).lowerCamel = (ofSnake name).tag ↔ AcronymFree name := by
  obtain ⟨c, v, others, -, hwords, hword, htag⟩ := words_of_isSnakeName h
  obtain ⟨-, hothers⟩ := List.forall_mem_cons.mp hword
  rw [AcronymFree, hwords, List.tail_cons, ← camelOfWords_eq_iff hothers]
  simp only [ofSnake, hwords, htag, lowerCamelOfWords, String.ofList_inj,
    List.append_cancel_left_eq]

end ResourceTypes.FieldName
