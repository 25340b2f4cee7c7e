import Mathlib.Data.List.Chain
import ResourceTypes.Proofs.Text.Ascii
import ResourceTypes.Proofs.Text.Pieces

/-! # Camel names read back

The tag of a generated field is derived from its camel name, in which the words of the attribute
are no longer marked off.  Words are found again where the class of letters changes, so that the
tag of a camel name is the name with a capital at each such place and small letters elsewhere
(`recase`, `tag_ofCamel`).

The places are those where the words of the attribute begin exactly when `ReadsBack` holds of them:
no letter follows a digit inside a word, and after a word that ends in a capital the next one stands
out.  Only then is the tag of the camel name with a suffix the tag of the attribute with the suffix
(`tag_ofCamel_camel_append_iff`). -/

namespace ResourceTypes.FieldName

open Text

/-! ### Tags of camel names -/

/-- The text with a capital where a word begins and small letters elsewhere; `prev` is the class
of the character before it. -/
def recase (prev : LetterClass) : List Char → List Char
  | [] => []
  | c :: rest =>
    (if beginsWord prev (classOf [c]) (rest.head?.map fun d => classOf [d]) then c.toUpper
      else c.toLower) :: recase (classOf [c]) rest

theorem wordsOfClusters_cons {c d word : List Char} {more words : List (List Char)}
    (h : wordsOfClusters (d :: more) = word :: words) :
    wordsOfClusters (c :: d :: more) =
      if beginsWord (classOf c) (classOf d) (more.head?.map classOf) then c :: word :: words
      else (c ++ word) :: words := by
  rw [wordsOfClusters.eq_def]
  simp only [h]

theorem camelWords_recase {c : Char} {rest : List Char}
    (h : ∀ d ∈ c :: rest, d.isAlphanum = true) :
    ∃ w ws, camelWords (c :: rest) = (c :: w) :: ws ∧
      (∀ x ∈ (c :: w) :: ws, ∀ d ∈ x, d.isAlphanum = true) ∧
      w.map Char.toLower ++ ws.flatMap (fun x => capitalize (lower x)) =
        recase (classOf [c]) rest := by
  rw [camelWords, clusters_of_alphanum h]
  induction rest generalizing c with
  | nil => exact ⟨[], [], rfl, by simpa using h, rfl⟩
  | cons d rest ih =>
      obtain ⟨hc, hrest⟩ := List.forall_mem_cons.mp h
      obtain ⟨w, ws, hwords, halpha, hrecase⟩ := ih hrest
      have hnext : (rest.map fun c => [c]).head?.map classOf =
          rest.head?.map fun d => classOf [d] := by
        cases rest <;> rfl
      rw [List.map_cons] at hwords
      rw [List.map_cons, List.map_cons, wordsOfClusters_cons hwords, hnext, recase, ← hrecase]
      have hfirst : ∀ x ∈ d :: w, x.isAlphanum = true := halpha _ List.mem_cons_self
      cases beginsWord (classOf [c]) (classOf [d]) (rest.head?.map fun d => classOf [d]) with
      | false =>
          refine ⟨d :: w, ws, rfl, ?_, rfl⟩
          refine List.forall_mem_cons.mpr ⟨List.forall_mem_cons.mpr ⟨hc, hfirst⟩, ?_⟩
          exact fun x hx => halpha x (List.mem_cons_of_mem _ hx)
      | true =>
          refine ⟨[], (d :: w) :: ws, rfl, List.forall_mem_cons.mpr ⟨by simpa using hc, halpha⟩, ?_⟩
          have hlower : ∀ x ∈ (d :: w).map Char.toLower, x.isAlphanum = true := by
            intro x hx
            obtain ⟨y, hy, rfl⟩ := List.mem_map.mp hx
            exact isAlphanum_toLower (hfirst y hy)
          have htwice : (w.map Char.toLower).map Char.toLower = w.map Char.toLower := by
            rw [List.map_map]
            exact List.map_congr_left fun y hy =>
              toLower_toLower (hfirst y (List.mem_cons_of_mem d hy))
          rw [List.map_cons] at hlower
          rw [List.flatMap_cons, lower_of_alphanum hfirst, List.map_cons, capitalize_cons hlower,
            htwice, toUpper_toLower (hfirst d List.mem_cons_self)]
          rfl

theorem lower_lower {s : List Char} (h : ∀ c ∈ s, c.isAlphanum = true) :
    lower (lower s) = lower s ∧ ∀ c ∈ lower s, c.isAlphanum = true := by
  have halpha : ∀ c ∈ lower s, c.isAlphanum = true := by
    intro c hc
    rw [lower_of_alphanum h] at hc
    obtain ⟨d, hd, rfl⟩ := List.mem_map.mp hc
    exact isAlphanum_toLower (h d hd)
  refine ⟨?_, halpha⟩
  rw [lower_of_alphanum halpha, lower_of_alphanum h, List.map_map]
  exact List.map_congr_left fun c hc => toLower_toLower (h c hc)

/-- The tag of a camel name is the name recased. -/
theorem tag_ofCamel {c : Char} {rest : List Char} (h : ∀ d ∈ c :: rest, d.isAlphanum = true) :
    (ofCamel (String.ofList (c :: rest))).tag =
      String.ofList (c.toLower :: recase (classOf [c]) rest) := by
  obtain ⟨w, ws, hwords, halpha, hrecase⟩ := camelWords_recase h
  obtain ⟨hfirst, hothers⟩ := List.forall_mem_cons.mp halpha
  have nounderscore : ∀ x ∈ (c :: w) :: ws, '_' ∉ lower x := fun x hx hmem =>
    absurd ((lower_lower (halpha x hx)).2 '_' hmem) (by decide)
  have hpieces : pieces '_' (snakeOfCamel (c :: rest)) = lower (c :: w) :: ws.map lower := by
    rw [snakeOfCamel, hwords, List.map_cons, intercalate_cons]
    refine pieces_join (nounderscore _ List.mem_cons_self) ?_
    simpa using fun x hx => nounderscore x (List.mem_cons_of_mem _ hx)
  have htag : (ofCamel (String.ofList (c :: rest))).tag =
      String.ofList (tagOfSnake (snakeOfCamel (c :: rest))) := by
    simp only [ofCamel, ofSnake, String.toList_ofList]
  rw [htag, tagOfSnake, hpieces]
  dsimp only
  rw [(lower_lower hfirst).1, lower_of_alphanum hfirst, List.map_cons, List.cons_append,
    List.flatMap_map, hrecase]

/-! ### Words of a camel name -/

/-- A word of small letters and digits. -/
structure IsWord (w : List Char) : Prop where
  ne_nil : w ≠ []
  chars : ∀ c ∈ w, c.isLower = true ∨ c.isDigit = true

/-- The camel form of the word ends in a capital. -/
def endsInCapital (w : List Char) : Bool := (camelWord w).getLast?.any Char.isUpper

/-- The camel form of the word begins with a digit, or with a capital before a small letter. -/
def standsOut (w : List Char) : Bool :=
  (camelWord w).head?.all fun c => c.isDigit || (camelWord w).tail.head?.any Char.isLower

/-- The words can be told apart in their joint camel form. -/
structure ReadsBack (words : List (List Char)) : Prop where
  together : ∀ w ∈ words, w.IsChain fun c d => ¬ (c.isDigit = true ∧ d.isLower = true)
  apart : words.IsChain fun u v => endsInCapital u = true → standsOut v = true

/-! ### Recasing words -/

/-- The class of the last character, or `prev` where there is none. -/
def lastClass (prev : LetterClass) (s : List Char) : LetterClass :=
  (s.getLast?.map fun c => classOf [c]).getD prev

theorem lastClass_cons (prev : LetterClass) (c : Char) (s : List Char) :
    lastClass prev (c :: s) = lastClass (classOf [c]) s := by
  cases s <;> rfl

theorem isChain_cons_iff {c : Char} {s : List Char} :
    ((c :: s).IsChain fun c d => ¬ (c.isDigit = true ∧ d.isLower = true)) ↔
      (c.isDigit = true → ∀ d ∈ s.head?, ¬ d.isLower = true) ∧
        s.IsChain fun c d => ¬ (c.isDigit = true ∧ d.isLower = true) := by
  rw [List.isChain_cons]
  exact and_congr_left' ⟨fun h hc d hd hlower => h d hd ⟨hc, hlower⟩,
    fun h d hd hboth => h hboth.1 d hd hboth.2⟩

theorem recase_small_iff {prev : LetterClass} {s rest rest' : List Char}
    (chars : ∀ c ∈ s, c.isLower = true ∨ c.isDigit = true) :
    recase prev (s ++ rest) = s ++ rest' ↔
      (s.IsChain fun c d => ¬ (c.isDigit = true ∧ d.isLower = true)) ∧
        (prev = .digit → ∀ c ∈ s.head?, ¬ c.isLower = true) ∧
        recase (lastClass prev s) rest = rest' := by
  induction s generalizing prev with
  | nil => simp [lastClass]
  | cons c s ih =>
      obtain ⟨hc, hs⟩ := List.forall_mem_cons.mp chars
      have halpha := hc.elim isAlphanum_of_isLower isAlphanum_of_isDigit
      have hhead (next : Option LetterClass) :
          (if beginsWord prev (classOf [c]) next then c.toUpper else c.toLower) = c ↔
            (prev = .digit → ¬ c.isLower = true) := by
        rcases hc with hc | hc
        · rw [classOf_of_isLower hc, toLower_of_isLower hc]
          cases prev <;> simp [beginsWord, hc, toUpper_ne_of_isLower hc]
        · simp [toUpper_of_isDigit hc, toLower_of_isDigit hc, not_isLower_of_isDigit hc]
      rw [List.cons_append, recase, lastClass_cons, List.cons_append, List.cons.injEq, hhead, ih hs,
        classOf_eq_digit_iff halpha, isChain_cons_iff]
      simp only [List.head?_cons, Option.mem_some_iff, forall_eq']
      tauto

theorem recase_capitals {s rest : List Char} (chars : ∀ c ∈ s, c.isLower = true)
    (next : ∀ c ∈ rest.head?, classOf [c] ≠ .lower) :
    recase .upper (s.map Char.toUpper ++ rest) = s ++ recase .upper rest := by
  induction s with
  | nil => rfl
  | cons c s ih =>
      obtain ⟨hc, hs⟩ := List.forall_mem_cons.mp chars
      have hnext : beginsWord .upper .upper
          ((s.map Char.toUpper ++ rest).head?.map fun d => classOf [d]) = false := by
        cases s with
        | nil =>
            cases rest with
            | nil => rfl
            | cons d _ =>
                have hd := next d rfl
                cases hclass : classOf [d] <;> simp_all [beginsWord]
        | cons d _ =>
            have hd := classOf_toUpper_of_isLower (hs d List.mem_cons_self)
            simp [beginsWord, hd]
      rw [List.map_cons, List.cons_append, recase, classOf_toUpper_of_isLower hc, hnext,
        if_neg Bool.false_ne_true, ih hs, toLower_toUpper (isAlphanum_of_isLower hc),
        toLower_of_isLower hc]
      rfl

theorem acronyms_letters : ∀ w ∈ acronyms, ∀ c ∈ w, c.isLower = true := by
  have hall : acronyms.all (fun w => w.all Char.isLower) = true := by decide
  exact fun w hw => List.all_eq_true.mp (List.all_eq_true.mp hall w hw)

theorem map_toLower_of_small {w : List Char}
    (h : ∀ c ∈ w, c.isLower = true ∨ c.isDigit = true) : w.map Char.toLower = w := by
  refine (List.map_congr_left fun c hc => ?_).trans (List.map_id w)
  exact (h c hc).elim toLower_of_isLower toLower_of_isDigit

namespace IsWord

variable {w : List Char}

theorem alphanum (hw : IsWord w) : ∀ c ∈ w, c.isAlphanum = true :=
  fun c hc => (hw.chars c hc).elim isAlphanum_of_isLower isAlphanum_of_isDigit

theorem map_toLower (hw : IsWord w) : w.map Char.toLower = w := map_toLower_of_small hw.chars

end IsWord

/-- The camel form of a word: a capital or a digit, then the rest, in capitals in an acronym. -/
theorem camelWord_cons {c : Char} {v : List Char} (hw : IsWord (c :: v)) :
    capitalize (c :: v) = c.toUpper :: v ∧
      camelWord (c :: v) =
        c.toUpper :: if (c :: v) ∈ acronyms then v.map Char.toUpper else v := by
  have hcap : capitalize (c :: v) = c.toUpper :: v := by
    rw [capitalize_cons hw.alphanum, (List.cons.inj hw.map_toLower).2]
  refine ⟨hcap, ?_⟩
  simp only [camelWord, List.contains_iff_mem, hcap]
  split <;> rfl

theorem lastClass_capitals {s : List Char} (h : ∀ c ∈ s, c.isLower = true) :
    lastClass .upper (s.map Char.toUpper) = .upper := by
  induction s with
  | nil => rfl
  | cons c s ih =>
      obtain ⟨hc, hs⟩ := List.forall_mem_cons.mp h
      rw [List.map_cons, lastClass_cons, classOf_toUpper_of_isLower hc, ih hs]

theorem alphanum_camelWord {w : List Char} (hw : IsWord w) :
    ∀ c ∈ camelWord w, c.isAlphanum = true := by
  obtain ⟨c, v, rfl⟩ := List.exists_cons_of_ne_nil hw.ne_nil
  obtain ⟨hc, hv⟩ := List.forall_mem_cons.mp hw.alphanum
  rw [(camelWord_cons hw).2]
  refine List.forall_mem_cons.mpr ⟨isAlphanum_toUpper hc, ?_⟩
  split
  · intro d hd
    obtain ⟨e, he, rfl⟩ := List.mem_map.mp hd
    exact isAlphanum_toUpper (hv e he)
  · exact hv

/-- The first character of a word stays a capital, or a digit, exactly when the word stands out or
follows no capital. -/
theorem recase_head_iff {prev : LetterClass} {c : Char} {v rest : List Char}
    (hw : IsWord (c :: v)) (hprev : prev ≠ .other) (next : ∀ d ∈ rest.head?, classOf [d] ≠ .lower) :
    (if beginsWord prev (classOf [c.toUpper])
        (((camelWord (c :: v)).tail ++ rest).head?.map fun d => classOf [d])
      then c.toUpper.toUpper else c.toUpper.toLower) = c.toUpper ↔
      (prev = .upper → standsOut (c :: v) = true) := by
  have hcamel := (camelWord_cons hw).2
  rcases hw.chars c List.mem_cons_self with hc | hc
  · have halpha := isAlphanum_of_isLower hc
    have hupper := isUpper_toUpper_of_isLower hc
    have hne := (toUpper_ne_of_isLower hc).symm
    rw [classOf_toUpper_of_isLower hc, toUpper_toUpper halpha, toLower_toUpper halpha,
      toLower_of_isLower hc]
    cases prev with
    | other => exact absurd rfl hprev
    | lower | digit => simp [beginsWord]
    | upper =>
        -- The word stands out by the small letter that follows its capital.
        have hstands : standsOut (c :: v) = (camelWord (c :: v)).tail.head?.any Char.isLower := by
          rw [standsOut, hcamel, List.head?_cons, Option.all_some,
            (not_isDigit_of_isUpper hupper).1, Bool.false_or]
        have hnext : ((camelWord (c :: v)).tail ++ rest).head?.map (fun d => classOf [d]) =
            some .lower ↔ standsOut (c :: v) = true := by
          rw [hstands]
          cases htail : (camelWord (c :: v)).tail with
          | nil => simpa using next
          | cons d tail =>
              have hd : d ∈ camelWord (c :: v) := List.mem_of_mem_tail (htail ▸ List.mem_cons_self)
              simpa using classOf_eq_lower_iff (alphanum_camelWord hw d hd)
        simp only [beginsWord, beq_iff_eq, hnext]
        cases standsOut (c :: v) <;> simp [hne]
  · have hstands : standsOut (c :: v) = true := by
      rw [standsOut, hcamel, List.head?_cons, Option.all_some, toUpper_of_isDigit hc, hc,
        Bool.true_or]
    simp [toUpper_of_isDigit hc, toLower_of_isDigit hc, hstands]

theorem recase_tail_iff {c : Char} {v rest rest' : List Char} (hw : IsWord (c :: v))
    (next : ∀ d ∈ rest.head?, classOf [d] ≠ .lower) :
    recase (classOf [c.toUpper]) ((camelWord (c :: v)).tail ++ rest) = v ++ rest' ↔
      ((c :: v).IsChain fun c d => ¬ (c.isDigit = true ∧ d.isLower = true)) ∧
        recase (lastClass (classOf [c.toUpper]) (camelWord (c :: v)).tail) rest = rest' := by
  obtain ⟨hc, hv⟩ := List.forall_mem_cons.mp hw.chars
  rw [(camelWord_cons hw).2, List.tail_cons]
  by_cases hacronym : (c :: v) ∈ acronyms
  · have htogether : ∀ w ∈ acronyms,
        w.IsChain fun c d => ¬ (c.isDigit = true ∧ d.isLower = true) := by decide
    obtain ⟨hc, hv⟩ := List.forall_mem_cons.mp (acronyms_letters _ hacronym)
    rw [if_pos hacronym, classOf_toUpper_of_isLower hc, recase_capitals hv next,
      lastClass_capitals hv, List.append_cancel_left_eq]
    exact (and_iff_right (htogether _ hacronym)).symm
  · have hclass : classOf [c.toUpper] = .digit ↔ c.isDigit = true := by
      rcases hc with hc | hc
      · rw [classOf_toUpper_of_isLower hc]
        exact iff_of_false nofun fun hd => not_isLower_of_isDigit hd hc
      · rw [toUpper_of_isDigit hc, classOf_of_isDigit hc]
        exact iff_of_true rfl hc
    rw [if_neg hacronym, recase_small_iff hv, hclass, isChain_cons_iff, ← and_assoc,
      and_comm (a := List.IsChain _ v)]

/-- A word of a camel name, acronym or not, is capitalized exactly when no letter follows a digit in
it and it stands out where it follows a capital. -/
theorem recase_word_iff {prev : LetterClass} {w rest rest' : List Char} (hw : IsWord w)
    (hprev : prev ≠ .other) (next : ∀ c ∈ rest.head?, classOf [c] ≠ .lower) :
    recase prev (camelWord w ++ rest) = capitalize w ++ rest' ↔
      (w.IsChain fun c d => ¬ (c.isDigit = true ∧ d.isLower = true)) ∧
        (prev = .upper → standsOut w = true) ∧
        recase (lastClass prev (camelWord w)) rest = rest' := by
  obtain ⟨c, v, rfl⟩ := List.exists_cons_of_ne_nil hw.ne_nil
  obtain ⟨hcap, hcamel⟩ := camelWord_cons hw
  have hcons : camelWord (c :: v) = c.toUpper :: (camelWord (c :: v)).tail := by
    rw [hcamel, List.tail_cons]
  rw [hcap, hcons, List.cons_append, List.cons_append, recase, lastClass_cons, List.cons.injEq,
    recase_head_iff hw hprev next, recase_tail_iff hw next]
  exact and_left_comm

theorem head_camelWord {w : List Char} (hw : IsWord w) (rest : List Char) :
    ∀ c ∈ (camelWord w ++ rest).head?, classOf [c] ≠ .lower := by
  obtain ⟨c, v, rfl⟩ := List.exists_cons_of_ne_nil hw.ne_nil
  rw [(camelWord_cons hw).2]
  intro d hd
  rw [List.cons_append, List.head?_cons, Option.mem_some_iff] at hd
  subst hd
  rcases hw.chars c List.mem_cons_self with hc | hc
  · rw [classOf_toUpper_of_isLower hc]
    decide
  · rw [toUpper_of_isDigit hc, classOf_of_isDigit hc]
    decide

theorem lastClass_camelWord {w : List Char} (hw : IsWord w) (prev : LetterClass) :
    lastClass prev (camelWord w) ≠ .other ∧
      (lastClass prev (camelWord w) = .upper ↔ endsInCapital w = true) := by
  have hne : camelWord w ≠ [] := by
    obtain ⟨c, v, rfl⟩ := List.exists_cons_of_ne_nil hw.ne_nil
    rw [(camelWord_cons hw).2]
    exact List.cons_ne_nil _ _
  have hlast := List.getLast?_eq_some_getLast hne
  have halpha := alphanum_camelWord hw _ (List.getLast_mem hne)
  rw [lastClass, endsInCapital, hlast, Option.map_some, Option.getD_some, Option.any_some]
  exact ⟨classOf_ne_other halpha, classOf_eq_upper_iff halpha⟩

/-- A text that every camel name can be followed by: its tag is the text itself. -/
structure IsSuffix (X : List Char) : Prop where
  alphanum : ∀ c ∈ X, c.isAlphanum = true
  head : ∀ c ∈ X.head?, classOf [c] ≠ .lower
  recase : ∀ prev, prev ≠ .other → recase prev X = X

theorem readsBack_cons {w : List Char} {words : List (List Char)} :
    ReadsBack (w :: words) ↔
      (w.IsChain fun c d => ¬ (c.isDigit = true ∧ d.isLower = true)) ∧
        (endsInCapital w = true → ∀ v ∈ words.head?, standsOut v = true) ∧ ReadsBack words := by
  constructor
  · rintro ⟨together, apart⟩
    obtain ⟨hw, hwords⟩ := List.forall_mem_cons.mp together
    obtain ⟨hnext, hrest⟩ := List.isChain_cons.mp apart
    exact ⟨hw, fun h v hv => hnext v hv h, hwords, hrest⟩
  · rintro ⟨hw, hnext, together, apart⟩
    exact ⟨List.forall_mem_cons.mpr ⟨hw, together⟩,
      List.isChain_cons.mpr ⟨fun v hv h => hnext h v hv, apart⟩⟩

/-- The words of a camel name are all capitalized exactly when they can be told apart. -/
theorem recase_words_iff (prev : LetterClass) {words : List (List Char)} {X : List Char}
    (hX : IsSuffix X) (hwords : ∀ w ∈ words, IsWord w) (hprev : prev ≠ .other) :
    recase prev (camelOfWords words ++ X) = words.flatMap capitalize ++ X ↔
      (prev = .upper → ∀ w ∈ words.head?, standsOut w = true) ∧ ReadsBack words := by
  induction words generalizing prev with
  | nil =>
      refine iff_of_true (hX.recase prev hprev) ⟨fun _ => by simp, ⟨by simp, .nil⟩⟩
  | cons w ws ih =>
      obtain ⟨hw, hws⟩ := List.forall_mem_cons.mp hwords
      obtain ⟨hother, hcapital⟩ := lastClass_camelWord hw prev
      have hnext : ∀ c ∈ (camelOfWords ws ++ X).head?, classOf [c] ≠ .lower := by
        cases ws with
        | nil => exact hX.head
        | cons v ws =>
            rw [camelOfWords, List.flatMap_cons, List.append_assoc]
            exact head_camelWord (hws v List.mem_cons_self) _
      rw [camelOfWords, List.flatMap_cons, List.append_assoc, ← camelOfWords, List.flatMap_cons,
        List.append_assoc, recase_word_iff hw hprev hnext, ih _ hws hother, hcapital,
        readsBack_cons]
      simp only [List.head?_cons, Option.mem_some_iff, forall_eq']
      tauto

/-! ### Snake names -/

/-- Small letters, digits and underscores. -/
def IsSnakeText (name : String) : Prop :=
  ∀ c ∈ name.toList, (c.isLower = true ∨ c.isDigit = true) ∨ c = '_'

instance (name : String) : Decidable (IsSnakeText name) :=
  List.decidableBAll (fun c : Char => (c.isLower = true ∨ c.isDigit = true) ∨ c = '_') name.toList

/-- A small letter, then small letters, digits and underscores. -/
def isSnakeName (name : String) : Bool :=
  match name.toList with
  | [] => false
  | c :: rest => c.isLower && rest.all fun d => d.isLower || d.isDigit || d == '_'

theorem isSnakeName_iff {name : String} :
    isSnakeName name = true ↔ IsSnakeText name ∧ ∃ c ∈ name.toList.head?, c.isLower = true := by
  unfold isSnakeName IsSnakeText
  cases name.toList with
  | nil => simp
  | cons c rest =>
      simp only [Bool.and_eq_true, List.all_eq_true, Bool.or_eq_true, beq_iff_eq,
        List.forall_mem_cons, List.head?_cons, Option.mem_some_iff, exists_eq_left']
      exact ⟨fun h => ⟨⟨.inl (.inl h.1), h.2⟩, h.1⟩, fun h => ⟨h.2, h.1.2⟩⟩

/-- The pieces of a snake text between underscores are of small letters and digits, and its words
are those that are not empty. -/
theorem IsSnakeText.pieces {name : String} (h : IsSnakeText name) :
    (∀ w ∈ pieces '_' name.toList, (∀ c ∈ w, c.isLower = true ∨ c.isDigit = true) ∧ lower w = w) ∧
      snakeWords name.toList = (Text.pieces '_' name.toList).filter fun w => !w.isEmpty := by
  have hchars : ∀ w ∈ Text.pieces '_' name.toList, ∀ c ∈ w,
      c.isLower = true ∨ c.isDigit = true := by
    intro w hw c hc
    obtain ⟨hmem, hne⟩ := mem_pieces hw c hc
    exact (h c hmem).resolve_right hne
  have hlower : ∀ w ∈ Text.pieces '_' name.toList, lower w = w := by
    intro w hw
    rw [lower_of_alphanum fun c hc =>
      (hchars w hw c hc).elim isAlphanum_of_isLower isAlphanum_of_isDigit]
    exact map_toLower_of_small (hchars w hw)
  refine ⟨fun w hw => ⟨hchars w hw, hlower w hw⟩, ?_⟩
  rw [snakeWords]
  refine (List.map_congr_left fun w hw => ?_).trans (List.map_id _)
  exact hlower w (List.mem_of_mem_filter hw)

/-- The words of a snake name; its tag capitalizes all but the first. -/
theorem words_of_isSnakeName {name : String} (h : isSnakeName name = true) :
    ∃ c v others, c.isLower = true ∧ snakeWords name.toList = (c :: v) :: others ∧
      (∀ w ∈ (c :: v) :: others, IsWord w) ∧
      tagOfSnake name.toList = (c :: v) ++ others.flatMap capitalize := by
  obtain ⟨htext, c, hhead, hc⟩ := isSnakeName_iff.mp h
  obtain ⟨hpieces, hwords⟩ := htext.pieces
  obtain ⟨rest, hname⟩ := List.head?_eq_some_iff.mp hhead
  have hunderscore : c ≠ '_' := by
    rintro rfl
    cases hc
  obtain ⟨v, others, -, hcut⟩ := pieces_cons hunderscore rest
  rw [hname, hcut] at hpieces hwords
  obtain ⟨⟨-, hfirst⟩, -⟩ := List.forall_mem_cons.mp hpieces
  rw [List.filter_cons_of_pos rfl] at hwords
  refine ⟨c, v, others.filter fun w => !w.isEmpty, hc, by rw [hname, hwords], ?_, ?_⟩
  · rw [← List.filter_cons_of_pos (p := fun w : List Char => !w.isEmpty) rfl]
    intro w hw
    obtain ⟨hmem, hne⟩ := List.mem_filter.mp hw
    exact ⟨by simpa using hne, (hpieces w hmem).1⟩
  · rw [hname, tagOfSnake, hcut]
    dsimp only
    rw [hfirst]
    congr 1
    -- Empty words add nothing.
    clear hcut hpieces hwords hfirst
    induction others with
    | nil => rfl
    | cons w others ih =>
        rw [List.flatMap_cons, ih]
        cases w <;> rfl

/-- The tag of the camel name with a suffix is the tag of the snake name with the suffix exactly
when the words can be told apart. -/
theorem tag_ofCamel_camel_append_iff {name : String} {X : List Char} (h : isSnakeName name = true)
    (hX : IsSuffix X) :
    (ofCamel ((ofSnake name).camel ++ String.ofList X)).tag =
        (ofSnake name).tag ++ String.ofList X ↔ ReadsBack (snakeWords name.toList) := by
  obtain ⟨c, v, others, hc, hwords, hword, htag⟩ := words_of_isSnakeName h
  obtain ⟨hcap, hcamel⟩ := camelWord_cons (hword _ List.mem_cons_self)
  have hcamelName : (ofSnake name).camel ++ String.ofList X =
      String.ofList (camelOfWords ((c :: v) :: others) ++ X) := by
    rw [String.ofList_append]
    simp only [ofSnake, hwords]
  have hsnakeTag : (ofSnake name).tag ++ String.ofList X =
      String.ofList ((c :: v) ++ others.flatMap capitalize ++ X) := by
    rw [String.ofList_append]
    simp only [ofSnake, htag]
  have hrecase := recase_words_iff .lower hX hword (by decide)
  rw [hcamelName, hsnakeTag, hwords]
  -- The camel name begins with a capital; recased after anything else, it begins with it too.
  obtain ⟨t, ht⟩ : ∃ t, camelOfWords ((c :: v) :: others) ++ X = c.toUpper :: t :=
    ⟨_, by rw [camelOfWords, List.flatMap_cons, hcamel, List.cons_append, List.cons_append]⟩
  have halpha : ∀ d ∈ c.toUpper :: t, d.isAlphanum = true := by
    rw [← ht]
    intro d hd
    rcases List.mem_append.mp hd with hd | hd
    · obtain ⟨w, hw, hdw⟩ := List.mem_flatMap.mp hd
      exact alphanum_camelWord (hword w hw) d hdw
    · exact hX.alphanum d hd
  have hbegins (next : Option LetterClass) : beginsWord .lower .upper next = true := rfl
  rw [ht, recase, classOf_toUpper_of_isLower hc, hbegins, if_pos rfl,
    toUpper_toUpper (isAlphanum_of_isLower hc), List.flatMap_cons, hcap] at hrecase
  rw [ht, tag_ofCamel halpha, classOf_toUpper_of_isLower hc,
    toLower_toUpper (isAlphanum_of_isLower hc), toLower_of_isLower hc]
  simpa only [String.ofList_inj, List.cons_append, List.cons.injEq, true_and, reduceCtorEq,
    false_implies] using hrecase

end ResourceTypes.FieldName
