import ResourceTypes.Field.Secret
import ResourceTypes.Proofs.Name.Forms

/-! # Suffixed names

The reference to a secret and the companions of a reference are named after the camel name of an
attribute, with a suffix that says what they hold (`generatedSuffixes`).  Their tags are derived
from the suffixed camel name and not from the attribute.

Up to case such a tag is the tag of the attribute with the suffix.  It is that very text exactly
when the words of the attribute can be told apart in its camel form (`tag_suffixed_iff`), which two
acronyms in a row cannot. -/

namespace ResourceTypes

/-- The suffixes of fields that stand in for the field of an attribute or beside it. -/
def generatedSuffixes : List String := [secretRefSuffix, "Ref", "Refs", "Selector"]

namespace FieldName

theorem isSuffix_of_mem {X : String} (h : X ∈ generatedSuffixes) : IsSuffix X.toList := by
  have halpha : ∀ X ∈ generatedSuffixes, X.toList.all Char.isAlphanum = true := by decide
  have hhead : ∀ X ∈ generatedSuffixes,
      X.toList.head?.map (fun c => classOf [c]) = some .upper := by
    decide
  have hrecase : ∀ prev ∈ [LetterClass.upper, .lower, .digit], ∀ X ∈ generatedSuffixes,
      recase prev X.toList = X.toList := by
    decide
  refine ⟨List.all_eq_true.mp (halpha X h), fun c hc => ?_, fun prev hprev => hrecase prev ?_ X h⟩
  · have hclass := hhead X h
    rw [Option.mem_def.mp hc, Option.map_some, Option.some.injEq] at hclass
    rw [hclass]
    decide
  · cases prev with
    | other => exact absurd rfl hprev
    | upper | lower | digit => decide

variable {name : String}

/-- The suffixed name has the tag of the attribute with the suffix exactly when the words of the
attribute can be told apart. -/
theorem tag_suffixed_iff (h : isSnakeName name = true) :
    ∀ X ∈ generatedSuffixes,
      (ofCamel ((ofSnake name).camel ++ X)).tag = (ofSnake name).tag ++ X ↔
        ReadsBack (snakeWords name.toList) := by
  intro X hX
  have hiff := tag_ofCamel_camel_append_iff h (isSuffix_of_mem hX)
  rwa [String.ofList_toList] at hiff

theorem uncased_tag_suffixed (h : isSnakeName name = true) :
    ∀ X ∈ generatedSuffixes,
      uncased (ofCamel ((ofSnake name).camel ++ X)).tag = uncased ((ofSnake name).tag ++ X) := by
  intro X hX
  have halpha : ∀ c ∈ ((ofSnake name).camel ++ X).toList, c.isAlphanum = true := by
    rw [String.toList_append, List.forall_mem_append]
    exact ⟨(alphanum_ofSnake h).1, (isSuffix_of_mem hX).alphanum⟩
  obtain ⟨hcamel, -, htag⟩ := uncased_ofSnake (isSnakeName_iff.mp h).1
  rw [uncased_tag_ofCamel halpha, uncased_append, uncased_append, hcamel, htag]

/-! ### Generated fields -/

theorem secretField?_of_isStringLike (field : String) {type : ValueType} (optional : Bool)
    (h : type.isStringLike = true) :
    ∃ s, secretField? field type optional = some s ∧ s.name = field ++ secretRefSuffix ∧
      s.jsonTag =
        (ofCamel (field ++ secretRefSuffix)).tag ++ if optional then omitEmpty else "" := by
  rw [secretField?, if_pos h]
  cases optional with
  | true => exact ⟨_, rfl, rfl, rfl⟩
  | false => exact ⟨_, rfl, rfl, String.append_empty.symm⟩

/-- A companion without a name of its own is named and tagged by a suffixed name. -/
theorem suffixed_of_mem_companions {base f : Field} {r : Reference}
    (href : r.refFieldName = none) (hselector : r.selectorFieldName = none)
    (h : f ∈ companions base r) :
    ∃ X ∈ ["Ref", "Refs", "Selector"], f.name = base.name ++ X ∧
      f.tags.json = (ofCamel (base.name ++ X)).tag ++ omitEmpty := by
  unfold companions at h
  rw [href, hselector] at h
  split at h
  all_goals
    obtain rfl | rfl : f = _ ∨ f = _ := by simpa using h
    all_goals exact ⟨_, by decide, rfl, rfl⟩

/-- A suffixed name has the tag of the attribute with the suffix up to case, and exactly when the
words of the attribute can be told apart; the tags of references to secrets and of companions
follow it. -/
theorem generated_tags {name : String} (h : isSnakeName name = true) :
    (∀ X ∈ generatedSuffixes,
      uncased (ofCamel ((ofSnake name).camel ++ X)).tag = uncased ((ofSnake name).tag ++ X) ∧
      ((ofCamel ((ofSnake name).camel ++ X)).tag = (ofSnake name).tag ++ X ↔
        ReadsBack (snakeWords name.toList))) ∧
    (∀ type optional, type.isStringLike = true →
      ∃ s, secretField? (ofSnake name).camel type optional = some s ∧
        s.name = (ofSnake name).camel ++ "SecretRef" ∧
        (s.jsonTag = (ofSnake name).tag ++ "SecretRef" ++ (if optional then ",omitempty" else "") ↔
          ReadsBack (snakeWords name.toList))) ∧
    ∀ base r, base.name = (ofSnake name).camel →
      r.refFieldName = none → r.selectorFieldName = none → ∀ f ∈ companions base r,
      ∃ X ∈ ["Ref", "Refs", "Selector"], f.name = base.name ++ X ∧
        (f.tags.json = (ofSnake name).tag ++ X ++ ",omitempty" ↔
          ReadsBack (snakeWords name.toList)) := by
  refine ⟨fun X hX => ⟨uncased_tag_suffixed h X hX, tag_suffixed_iff h X hX⟩, ?_, ?_⟩
  · intro type optional htype
    obtain ⟨s, hs, hname, htag⟩ := secretField?_of_isStringLike _ optional htype
    refine ⟨s, hs, hname, ?_⟩
    rw [htag, ← tag_suffixed_iff h secretRefSuffix List.mem_cons_self]
    exact String.append_left_inj _
  · intro base r hbase href hselector f hf
    obtain ⟨X, hX, hname, htag⟩ := suffixed_of_mem_companions href hselector hf
    refine ⟨X, hX, hname, ?_⟩
    rw [htag, hbase, ← tag_suffixed_iff h X (List.mem_cons_of_mem _ hX)]
    exact String.append_left_inj _

/-- An acronym at the end, after a word that ends in a small letter. -/
theorem generated_tags_db_url :
    isSnakeName "db_url" = true ∧ (ofCamel "DbURLSelector").tag = "dbUrlSelector" ∧
      ∃ s, secretField? "DbURL" (.primitive .string) true = some s ∧
        s.jsonTag = "dbUrlSecretRef,omitempty" := by
  have h : isSnakeName "db_url" = true := by decide
  have back : ReadsBack (snakeWords "db_url".toList) := ⟨by decide +kernel, by decide +kernel⟩
  have hcamel : (ofSnake "db_url").camel = "DbURL" := by decide +kernel
  have htag : (ofSnake "db_url").tag = "dbUrl" := by decide +kernel
  obtain ⟨hsuffix, hsecret, -⟩ := generated_tags h
  rw [hcamel, htag] at hsecret
  obtain ⟨s, hs, -, hjson⟩ := hsecret (.primitive .string) true rfl
  refine ⟨h, ?_, s, hs, hjson.mpr back⟩
  have hselector := (hsuffix "Selector" (by decide)).2.mpr back
  rwa [hcamel, htag] at hselector

/-- Two acronyms in a row are read back as one word. -/
theorem suffixed_tag_missed :
    isSnakeName "api_url" = true ∧ "SecretRef" ∈ generatedSuffixes ∧
      (ofCamel ((ofSnake "api_url").camel ++ "SecretRef")).tag = "apiurlSecretRef" ∧
      (ofSnake "api_url").tag ++ "SecretRef" = "apiUrlSecretRef" ∧
      (ofCamel ((ofSnake "api_url").camel ++ "SecretRef")).tag ≠
        (ofSnake "api_url").tag ++ "SecretRef" := by
  have hcamel : (ofSnake "api_url").camel ++ "SecretRef" =
      String.ofList ('A' :: "PIURLSecretRef".toList) := by
    decide +kernel
  have htag : (ofSnake "api_url").tag ++ "SecretRef" = "apiUrlSecretRef" := by decide +kernel
  have halpha : ('A' :: "PIURLSecretRef".toList).all Char.isAlphanum = true := by decide
  have hsuffixed :
      (ofCamel ((ofSnake "api_url").camel ++ "SecretRef")).tag = "apiurlSecretRef" := by
    rw [hcamel, tag_ofCamel (List.all_eq_true.mp halpha)]
    decide
  refine ⟨by decide, List.mem_cons_self, hsuffixed, htag, ?_⟩
  rw [hsuffixed, htag]
  decide

end FieldName

end ResourceTypes
