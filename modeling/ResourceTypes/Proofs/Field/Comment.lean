import ResourceTypes.Proofs.Field.Directive
import ResourceTypes.Proofs.Text.Trim

/-! # Reading descriptions

Reading a description takes one step for each line: a line of text is kept, a directive overrides
and a malformed line ends the reading.  By induction over the lines, reading fails with the fault of
the first malformed line (`readLines_error_iff`), and otherwise each override is that of the last
directive of its kind (`IsOverride.get_readLines`).

The lines that are kept are those of text without the empty ones at both ends (`Comment.text`), and
they are read back from the text that joins them (`parse_joined`).  A description that is read has
no markers of its own (`Comment.Plain`). -/

namespace ResourceTypes

open Text

namespace Comment

variable {line : List Char} {lines rest : List (List Char)} {d : Directive} {e : DirectiveError}
  {c c' : Comment}

/-! ### Steps of reading -/

theorem readLines_text (h : TextLine line) :
    c.readLines (line :: rest) =
      readLines { c with lines := c.lines ++ [String.ofList (trimEnd line)] } rest := by
  rw [readLines, directiveBody?_of_textLine h]

theorem readLines_directive (h : DirectiveLine line d) :
    c.readLines (line :: rest) = (c.override d).readLines rest := by
  obtain ⟨body, hbody, hparse⟩ := Option.map_eq_some_iff.mp h.read
  rw [readLines, hbody]
  dsimp only
  rw [hparse]

theorem readLines_malformed (h : MalformedLine line e) : c.readLines (line :: rest) = .error e := by
  obtain ⟨body, hbody, hparse⟩ := Option.map_eq_some_iff.mp h.read
  rw [readLines, hbody]
  dsimp only
  rw [hparse]

/-- Reading fails exactly with the fault of the first malformed line. -/
theorem readLines_error_iff : c.readLines lines = .error e ↔ FirstFault lines e := by
  induction lines generalizing c with
  | nil => exact ⟨nofun, nofun⟩
  | cons line rest ih =>
      rw [firstFault_cons_iff]
      rcases line_cases line with text | ⟨d, directive⟩ | ⟨e', malformed⟩
      · have sound := text.not_malformedLine
        rw [readLines_text text, ih, or_iff_right (sound e), and_iff_right sound]
      · have sound := directive.not_malformedLine
        rw [readLines_directive directive, ih, or_iff_right (sound e), and_iff_right sound]
      · rw [readLines_malformed malformed, Except.error.injEq]
        constructor
        · rintro rfl
          exact .inl malformed
        · rintro (h | ⟨sound, -⟩)
          · exact malformed.unique h
          · exact absurd malformed (sound e')

/-! ### Overrides -/

/-- The part of the documentation that directives of one kind override. -/
structure IsOverride {α : Type} (get : Comment → Option α) (make : α → Directive) : Prop where
  set : ∀ (c : Comment) v, get (c.override (make v)) = some v
  keep : ∀ (c : Comment) d, (∀ v, d ≠ make v) → get (c.override d) = get c
  text : ∀ (c : Comment) kept, get { c with lines := kept } = get c

theorem isOverride_tfTag : IsOverride Comment.tfTag .tfTag where
  set _ _ := rfl
  keep _ d h := by
    cases d with
    | tfTag tag => exact absurd rfl (h tag)
    | jsonTag | required => rfl
  text _ _ := rfl

theorem isOverride_jsonTag : IsOverride Comment.jsonTag .jsonTag where
  set _ _ := rfl
  keep _ d h := by
    cases d with
    | jsonTag tag => exact absurd rfl (h tag)
    | tfTag | required => rfl
  text _ _ := rfl

theorem isOverride_required : IsOverride Comment.requiredOverride .required where
  set _ _ := rfl
  keep _ d h := by
    cases d with
    | required value => exact absurd rfl (h value)
    | tfTag | jsonTag => rfl
  text _ _ := rfl

section

variable {α : Type} {get : Comment → Option α} {make : α → Directive} {v : α}

/-- After reading, an override is that of the last directive of its kind, or the one before reading
where there is none. -/
theorem IsOverride.get_readLines (ho : IsOverride get make) (h : c.readLines lines = .ok c') :
    get c' = some v ↔ LastSaid make lines v ∨ Silent make lines ∧ get c = some v := by
  induction lines generalizing c with
  | nil =>
      cases h
      exact ⟨fun h => .inr ⟨nofun, h⟩, fun h => h.elim nofun And.right⟩
  | cons line rest ih =>
      rcases line_cases line with text | ⟨d, directive⟩ | ⟨e, malformed⟩
      · have other : ∀ v, ¬ DirectiveLine line (make v) := fun v => text.not_directiveLine _
        obtain ⟨hlast, hsilent⟩ := said_cons_iff rest v other
        rw [readLines_text text] at h
        rw [ih h, ho.text, hlast, hsilent]
      · rw [readLines_directive directive] at h
        rw [ih h]
        by_cases kind : ∃ w, d = make w
        · -- A directive of the kind replaces what was set before, unless a later one replaces it.
          obtain ⟨w, rfl⟩ := kind
          have spoken : ¬ ∀ v, ¬ DirectiveLine line (make v) := fun other => other w directive
          have hsaid : DirectiveLine line (make v) ↔ get (c.override (make w)) = some v := by
            constructor
            · intro said
              rw [directive.unique said, ho.set]
            · intro hget
              rw [ho.set, Option.some.injEq] at hget
              rwa [← hget]
          rw [lastSaid_cons_iff, silent_cons_iff, hsaid]
          tauto
        · rw [not_exists] at kind
          have other : ∀ v, ¬ DirectiveLine line (make v) :=
            fun v said => kind v (directive.unique said)
          obtain ⟨hlast, hsilent⟩ := said_cons_iff rest v other
          rw [ho.keep _ _ kind, hlast, hsilent]
      · rw [readLines_malformed malformed] at h
        cases h

end

/-! ### Text of a description -/

/-- The lines that are no directive, each without the blanks at its end. -/
def keptLines (lines : List (List Char)) : List String :=
  (lines.filter fun line => (directiveBody? line).isNone).map fun line =>
    String.ofList (Text.trimEnd line)

/-- The lines of a description that are text. -/
def text (description : String) : List String :=
  withoutEmptyEnds (keptLines (Text.lines description.toList))

/-- The lines are the given ones, and there is no marker. -/
structure Plain (c : Comment) (lines : List String) : Prop where
  lines : c.lines = lines
  required : c.required = none
  reference : c.reference = none

theorem Plain.override {c : Comment} {lines : List String} (h : c.Plain lines) (d : Directive) :
    (c.override d).Plain lines := by
  cases d <;> exact ⟨h.lines, h.required, h.reference⟩

theorem Plain.of_readLines {c c' : Comment} {kept : List String} {lines : List (List Char)}
    (h : c.Plain kept) (hread : c.readLines lines = .ok c') :
    c'.Plain (kept ++ keptLines lines) := by
  induction lines generalizing c kept with
  | nil =>
      cases hread
      simpa [keptLines] using h
  | cons line rest ih =>
      rcases line_cases line with text | ⟨d, directive⟩ | ⟨e, malformed⟩
      · rw [readLines_text text] at hread
        have hnext : ({ c with lines := c.lines ++ [String.ofList (trimEnd line)] } :
            Comment).Plain (kept ++ [String.ofList (trimEnd line)]) :=
          ⟨by rw [h.lines], h.required, h.reference⟩
        simpa [keptLines, directiveBody?_of_textLine text] using ih hnext hread
      · rw [readLines_directive directive] at hread
        obtain ⟨body, hbody, -⟩ := Option.map_eq_some_iff.mp directive.read
        simpa [keptLines, hbody] using ih (h.override d) hread
      · rw [readLines_malformed malformed] at hread
        cases hread

theorem plain_of_parse {description : String} {c : Comment} (h : parse description = .ok c) :
    c.Plain (text description) := by
  unfold parse at h
  cases hread : readLines {} (Text.lines description.toList) with
  | error e =>
      rw [hread] at h
      cases h
  | ok read =>
      rw [hread] at h
      cases h
      have hempty : ({} : Comment).Plain [] := ⟨rfl, rfl, rfl⟩
      have hplain := hempty.of_readLines hread
      exact ⟨congrArg withoutEmptyEnds hplain.lines, hplain.required, hplain.reference⟩

/-- The lines that are kept are the texts among them. -/
theorem keptLines_eq (lines : List (List Char)) :
    keptLines lines =
      (lines.filter fun line => TextLine line).map fun line => String.ofList (trimEnd line) := by
  rw [keptLines]
  congr 1
  refine List.filter_congr fun line _ => ?_
  rw [Bool.eq_iff_iff, Option.isNone_iff_eq_none, decide_eq_true_iff]
  rcases line_cases line with text | ⟨d, directive⟩ | ⟨e, malformed⟩
  · exact iff_of_true (directiveBody?_of_textLine text) text
  · refine iff_of_false (fun hbody => ?_) fun text => text.not_directiveLine d directive
    simpa [hbody] using directive.read
  · refine iff_of_false (fun hbody => ?_) fun text => text.not_malformedLine e malformed
    simpa [hbody] using malformed.read

theorem exists_withoutEmptyEnds (lines : List String) :
    ∃ n m, lines = List.replicate n "" ++ withoutEmptyEnds lines ++ List.replicate m "" := by
  let kept := lines.rdropWhile String.isEmpty
  have hstart : kept.takeWhile String.isEmpty = List.replicate _ "" :=
    List.eq_replicate_of_mem fun _ hl => String.isEmpty_iff.mp (List.mem_takeWhile_imp hl)
  have hend : lines.rtakeWhile String.isEmpty = List.replicate _ "" :=
    List.eq_replicate_of_mem fun _ hl => String.isEmpty_iff.mp (List.mem_rtakeWhile_imp hl)
  have hparts : kept.takeWhile String.isEmpty ++ withoutEmptyEnds lines ++
      lines.rtakeWhile String.isEmpty = lines := by
    show kept.takeWhile String.isEmpty ++ kept.dropWhile String.isEmpty ++ _ = _
    rw [List.takeWhile_append_dropWhile]
    exact List.rdropWhile_append_rtakeWhile
  rw [hstart, hend] at hparts
  exact ⟨_, _, hparts.symm⟩

/-- Neither the first line nor the last is empty. -/
structure FullEnds (lines : List String) : Prop where
  head : ∀ l ∈ lines.head?, l ≠ ""
  last : ∀ l ∈ lines.getLast?, l ≠ ""

theorem fullEnds_withoutEmptyEnds (lines : List String) : FullEnds (withoutEmptyEnds lines) where
  head := by
    rintro l hl rfl
    exact absurd (head?_dropWhile String.isEmpty _ "" hl) (by decide)
  last := by
    rintro l hl rfl
    -- The last line that is left stands at the end before the start is dropped, too.
    obtain ⟨cut, hcut⟩ : withoutEmptyEnds lines <:+ lines.rdropWhile String.isEmpty :=
      List.dropWhile_suffix String.isEmpty
    have hne : withoutEmptyEnds lines ≠ [] := by
      rintro hempty
      rw [hempty] at hl
      cases hl
    have hlast : (lines.rdropWhile String.isEmpty).getLast? = some "" := by
      rw [← hcut]
      exact (List.getLast?_append_of_ne_nil _ hne).trans hl
    rw [List.rdropWhile, List.getLast?_reverse] at hlast
    exact absurd (head?_dropWhile String.isEmpty _ "" hlast) (by decide)

theorem FullEnds.withoutEmptyEnds_eq {lines : List String} (h : FullEnds lines) :
    withoutEmptyEnds lines = lines := by
  have hend : lines.rdropWhile String.isEmpty = lines := by
    refine List.rdropWhile_eq_self_iff.mpr fun hne hempty => ?_
    exact h.last _ (List.getLast?_eq_some_getLast hne) (String.isEmpty_iff.mp hempty)
  show (lines.rdropWhile String.isEmpty).dropWhile String.isEmpty = lines
  rw [hend]
  cases lines with
  | nil => rfl
  | cons l lines =>
      refine List.dropWhile_cons_of_neg fun hempty => ?_
      exact h.head l rfl (String.isEmpty_iff.mp hempty)

/-- Lines as one text. -/
def joined (lines : List String) : String := "\n".intercalate lines

theorem Plain.render_eq {c : Comment} {lines : List String} (h : c.Plain lines) :
    c.render = joined lines := by
  rw [render, markers, h.lines, h.required, h.reference, joined]
  simp

/-! ### Reading the text again -/

/-- A line that reading keeps as it is. -/
structure IsText (l : String) : Prop where
  noFeed : '\n' ∉ l.toList
  trimmed : trimEnd l.toList = l.toList
  text : TextLine l.toList

theorem isText_of_mem_text {description l : String} (h : l ∈ text description) : IsText l := by
  have hkept : l ∈ keptLines (Text.lines description.toList) :=
    (List.rdropWhile_prefix String.isEmpty _).subset ((List.dropWhile_suffix _).subset h)
  rw [keptLines_eq, List.mem_map] at hkept
  obtain ⟨line, hline, rfl⟩ := hkept
  obtain ⟨hmem, htext⟩ := List.mem_filter.mp hline
  constructor
  · rw [String.toList_ofList]
    exact fun hc => not_mem_of_mem_lines hmem ((List.rdropWhile_prefix isBlank line).subset hc)
  · rw [String.toList_ofList, trimEnd_trimEnd]
  · rw [String.toList_ofList, TextLine, trim_trimEnd]
    exact of_decide_eq_true htext

theorem readLines_of_isText {kept : List String} (h : ∀ l ∈ kept, IsText l) :
    c.readLines (kept.map String.toList) = .ok { c with lines := c.lines ++ kept } := by
  induction kept generalizing c with
  | nil => rw [List.map_nil, readLines, List.append_nil]
  | cons l kept ih =>
      obtain ⟨hl, hkept⟩ := List.forall_mem_cons.mp h
      rw [List.map_cons, readLines_text hl.text, ih hkept, hl.trimmed, String.ofList_toList,
        List.append_assoc, List.singleton_append]

/-- Lines of text are read back from the text that joins them. -/
theorem parse_joined {kept : List String} (h : ∀ l ∈ kept, IsText l) (ends : FullEnds kept) :
    parse (joined kept) = .ok { lines := kept } := by
  have hlines : Text.lines (joined kept).toList = kept.map String.toList := by
    rw [joined, String.toList_intercalate]
    refine lines_intercalate ?_ ?_ ?_
    · rw [List.forall_mem_map]
      exact fun l hl => (h l hl).noFeed
    · rw [List.forall_mem_map]
      intro l hl hreturn
      rw [← (h l hl).trimmed] at hreturn
      exact absurd (getLast?_trimEnd _ _ hreturn) (by decide)
    · rw [List.getLast?_map, ne_eq, Option.map_eq_some_iff]
      rintro ⟨l, hl, hempty⟩
      exact ends.last l hl (String.toList_eq_nil_iff.mp hempty)
  rw [parse, hlines, readLines_of_isText h, List.nil_append]
  dsimp only
  rw [ends.withoutEmptyEnds_eq]

/-! ### Main statement -/

/-- The documentation holds the last override of each kind, no marker, and the lines of text without
the blanks at their ends, all but the empty ones before the first and after the last that is not
empty. -/
structure ReadFrom (c : Comment) (lines : List (List Char)) : Prop where
  tfTag : ∀ tag, c.tfTag = some tag ↔ LastSaid .tfTag lines tag
  jsonTag : ∀ tag, c.jsonTag = some tag ↔ LastSaid .jsonTag lines tag
  requiredOverride : ∀ value, c.requiredOverride = some value ↔ LastSaid .required lines value
  unmarked : c.required = none ∧ c.reference = none
  text : ∃ n m, ((lines.filter fun line => TextLine line).map fun line =>
      String.ofList (trimEnd line)) = List.replicate n "" ++ c.lines ++ List.replicate m ""
  ends : FullEnds c.lines

theorem readFrom_of_parse {description : String} (h : parse description = .ok c) :
    c.ReadFrom (Text.lines description.toList) ∧ c.lines = text description := by
  have hplain := plain_of_parse h
  unfold parse at h
  cases hread : readLines {} (Text.lines description.toList) with
  | error e =>
      rw [hread] at h
      cases h
  | ok read =>
      rw [hread] at h
      cases h
      have hget {α : Type} {get : Comment → Option α} {make : α → Directive}
          (ho : IsOverride get make) (hempty : get {} = none) (v : α) :
          get { read with lines := withoutEmptyEnds read.lines } = some v ↔
            LastSaid make (Text.lines description.toList) v := by
        rw [ho.text, ho.get_readLines hread, hempty]
        simp
      refine ⟨⟨hget isOverride_tfTag rfl, hget isOverride_jsonTag rfl,
        hget isOverride_required rfl, ⟨hplain.required, hplain.reference⟩, ?_, ?_⟩, hplain.lines⟩
      · rw [← keptLines_eq, hplain.lines]
        exact exists_withoutEmptyEnds _
      · exact fullEnds_withoutEmptyEnds _

/-- A description is read exactly when no line of it is malformed, and the error is that of the
first malformed line.  What is read holds no directive as text, and its text is read back. -/
theorem parse_description (description : String) :
    (∀ e, parse description = .error e ↔ FirstFault (Text.lines description.toList) e) ∧
    ((∃ e, parse description = .error e) ↔
      ∃ line ∈ Text.lines description.toList, ∃ e, MalformedLine line e) ∧
    ∀ c, parse description = .ok c →
      c.ReadFrom (Text.lines description.toList) ∧ (∀ l ∈ c.lines, TextLine l.toList) ∧
      parse ("\n".intercalate c.lines) = .ok { lines := c.lines } := by
  have herror (e : DirectiveError) :
      parse description = .error e ↔ FirstFault (Text.lines description.toList) e := by
    rw [← readLines_error_iff (c := {}), parse]
    cases readLines {} (Text.lines description.toList) with
    | error e' => rfl
    | ok c => exact ⟨nofun, nofun⟩
  refine ⟨herror, ?_, fun c hc => ?_⟩
  · simp only [herror]
    exact exists_firstFault_iff
  · obtain ⟨hread, hlines⟩ := readFrom_of_parse hc
    have htext : ∀ l ∈ c.lines, IsText l := fun l hl => isText_of_mem_text (hlines ▸ hl)
    exact ⟨hread, fun l hl => (htext l hl).text, parse_joined htext hread.ends⟩

/-- A description with directives before and after its text. -/
def interleaved : String :=
  "\r\n+tfcrd:field:TFTag=a\n \n A \t\n\nB\n\n +tfcrd:field: TFTag = b=c\n"

/-- The last directive sets the tag again, and what follows its first equals sign is the tag. -/
theorem parse_description_interleaved :
    ∃ c, parse interleaved = .ok c ∧ c.lines = [" A", "", "B"] ∧ c.tfTag = some "b=c" ∧
      parse ("\n".intercalate [" A", "", "B"]) = .ok { lines := [" A", "", "B"] } := by
  let c : Comment := { lines := [" A", "", "B"], tfTag := some "b=c" }
  have hparse : parse interleaved = .ok c := by decide +kernel
  obtain ⟨-, -, hread⟩ := parse_description interleaved
  obtain ⟨-, -, hagain⟩ := hread c hparse
  exact ⟨c, hparse, rfl, rfl, hagain⟩

end Comment

end ResourceTypes
