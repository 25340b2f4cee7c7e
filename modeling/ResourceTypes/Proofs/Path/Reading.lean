import ResourceTypes.Proofs.Path.Spelling

/-! # Reading paths

A text that is read as a path is cut at dots into parts, each a name with the brackets of wildcards
after it (`exists_of_readPart`).  The names of the path are those of its parts that are not the mark
of a wildcard, and they show where they end (`spellable_of_readParts`).

Spelling the path that was read changes no end of the text but for the mark of a wildcard, so that
the spelling is trimmed like the text (`trimmed_spelled`).  By `parse_spelled_iff` it is read again
as the same path when the path starts with a field.  A path that starts with a wildcard is read
from a text that starts with the mark, but its spelling starts with a bracket, and such a text is
refused. -/

namespace ResourceTypes

open Text

namespace FieldPath

/-! ### Parts that are read -/

theorem eq_brackets_of_readBrackets {s : List Char} {steps : List Segment}
    (h : readBrackets s = some steps) :
    ∃ n, s = PathPart.brackets n ∧ steps = List.replicate n .wildcard := by
  induction s using readBrackets.induct generalizing steps with
  | case1 =>
      rw [readBrackets, Option.some.injEq] at h
      exact ⟨0, rfl, h.symm⟩
  | case2 rest ih =>
      rw [readBrackets, Option.map_eq_some_iff] at h
      obtain ⟨more, hmore, rfl⟩ := h
      obtain ⟨n, rfl, rfl⟩ := ih hmore
      exact ⟨n + 1, rfl, rfl⟩
  | case3 s hnil hbracket =>
      rw [readBrackets] at h
      · cases h
      · exact hnil
      · exact hbracket

/-- A part that is read is a name without brackets and the brackets of wildcards. -/
theorem exists_of_readPart {text : String} {part : List Char} {steps : List Segment}
    (h : readPart text part = .ok steps) :
    ∃ name n, name ≠ [] ∧ '[' ∉ name ∧ part = name ++ PathPart.brackets n ∧
      steps = segmentOfName name :: List.replicate n .wildcard := by
  simp only [readPart] at h
  split at h
  next => cases h
  next hne =>
    split at h
    next => cases h
    next wildcards hbrackets =>
      cases h
      obtain ⟨n, hn, rfl⟩ := eq_brackets_of_readBrackets hbrackets
      refine ⟨part.takeWhile (· != '['), n, ?_, ?_, ?_, rfl⟩
      · simpa [List.isEmpty_iff] using hne
      · intro hmem
        simpa using List.mem_takeWhile_imp hmem
      · rw [← hn, List.takeWhile_append_dropWhile]

theorem readParts_cons {text : String} {part : List Char} {parts : List (List Char)}
    {steps : List Segment} :
    readParts text (part :: parts) = .ok steps ↔
      ∃ first more, readPart text part = .ok first ∧ readParts text parts = .ok more ∧
        steps = first ++ more := by
  rw [readParts]
  cases readPart text part with
  | error e => simp
  | ok first => cases readParts text parts <;> simp [eq_comm]

theorem readParts_append {text : String} {parts parts' : List (List Char)} {steps : List Segment}
    (h : readParts text (parts ++ parts') = .ok steps) :
    ∃ first more, readParts text parts = .ok first ∧ readParts text parts' = .ok more ∧
      steps = first ++ more := by
  induction parts generalizing steps with
  | nil => exact ⟨[], steps, rfl, h, rfl⟩
  | cons part parts ih =>
      obtain ⟨first, rest, hfirst, hrest, rfl⟩ := readParts_cons.mp h
      obtain ⟨before, more, hbefore, hmore, rfl⟩ := ih hrest
      exact ⟨first ++ before, more, readParts_cons.mpr ⟨first, before, hfirst, hbefore, rfl⟩, hmore,
        (List.append_assoc ..).symm⟩

/-- The names that are read from parts without dots show where they end, and none is the mark of a
wildcard. -/
theorem spellable_of_readParts {text : String} {parts : List (List Char)} {steps : List Segment}
    (h : readParts text parts = .ok steps) (hdot : ∀ part ∈ parts, '.' ∉ part) :
    ∀ n ∈ steps.filterMap Segment.name?, Spellable n ∧ n ≠ "*" := by
  induction parts generalizing steps with
  | nil =>
      cases h
      simp
  | cons part parts ih =>
      obtain ⟨first, more, hfirst, hmore, rfl⟩ := readParts_cons.mp h
      obtain ⟨hpart, hparts⟩ := List.forall_mem_cons.mp hdot
      obtain ⟨name, n, hne, hbracket, rfl, rfl⟩ := exists_of_readPart hfirst
      rw [List.filterMap_append, List.forall_mem_append]
      refine ⟨?_, ih hmore hparts⟩
      have hnames : (segmentOfName name :: List.replicate n .wildcard).filterMap Segment.name? =
          if name = ['*'] then [] else [String.ofList name] := by
        unfold segmentOfName
        split <;> simp [Segment.name?]
      rw [hnames]
      split
      next => simp
      next hstar =>
        rw [List.forall_mem_singleton]
        have hname : (String.ofList name).toList = name := String.toList_ofList
        refine ⟨⟨fun e => hne ?_, ?_, by rwa [hname]⟩, fun e => hstar ?_⟩
        · rw [← hname, e]
          rfl
        · rw [hname]
          exact fun hmem => hpart (List.mem_append_left _ hmem)
        · rw [← hname, e]
          rfl

/-! ### Ends of a spelling -/

theorem exists_spellFrom (written : List Char) (steps : List Segment) (h : written ≠ []) :
    ∃ more, spellFrom written steps = written ++ more := by
  induction steps generalizing written with
  | nil => exact ⟨[], (List.append_nil _).symm⟩
  | cons step steps ih =>
      cases step with
      | wildcard =>
          obtain ⟨more, hmore⟩ := ih (written ++ ['[', '*', ']']) (by simp)
          exact ⟨_, by rw [spellFrom, hmore, List.append_assoc]⟩
      | field name =>
          rw [spellFrom, if_neg (by simpa [List.isEmpty_iff] using h)]
          obtain ⟨more, hmore⟩ := ih (written ++ '.' :: name.toList) (by simp)
          exact ⟨_, by rw [hmore, List.append_assoc]⟩

/-- The spelling of what a part stands for ends in the part, or in a bracket. -/
theorem exists_spellFrom_part {text : String} {part : List Char} {steps : List Segment}
    (h : readPart text part = .ok steps) (written : List Char) :
    ∃ before, spellFrom written steps = before ++ part ∨
      spellFrom written steps = before ++ [']'] := by
  obtain ⟨name, n, -, -, rfl, rfl⟩ := exists_of_readPart h
  have hwildcards := fun w => spellFrom_wildcards w n []
  simp only [List.append_nil, spellFrom] at hwildcards
  by_cases hstar : name = ['*']
  · rw [segmentOfName, if_pos hstar, spellFrom, hwildcards]
    have hlast : ['[', '*', ']'] ++ PathPart.brackets n =
        PathPart.brackets n ++ ['[', '*'] ++ [']'] := by
      rw [List.append_assoc]
      exact PathPart.brackets_concat n
    exact ⟨written ++ (PathPart.brackets n ++ ['[', '*']), .inr (by simp [← hlast])⟩
  · rw [segmentOfName, if_neg hstar, spellFrom, hwildcards, String.toList_ofList]
    split
    · exact ⟨[], .inl rfl⟩
    · exact ⟨written ++ ['.'], .inl (by simp)⟩

/-- The last character of a spelling is the last one of the parts that were read, or a bracket. -/
theorem getLast?_spellFrom {text : String} {parts : List (List Char)} {last : List Char}
    {steps : List Segment} (h : readParts text (parts ++ [last]) = .ok steps)
    (written : List Char) :
    ∀ c ∈ (spellFrom written steps).getLast?, c ∈ last.getLast? ∨ c = ']' := by
  obtain ⟨first, more, -, hmore, rfl⟩ := readParts_append h
  obtain ⟨more, none, hlast, hnone, rfl⟩ := readParts_cons.mp hmore
  cases hnone
  obtain ⟨name, n, hne, -, hname, -⟩ := exists_of_readPart hlast
  obtain ⟨before, hend | hend⟩ := exists_spellFrom_part hlast (spellFrom written first)
  · intro c hc
    rw [List.append_nil, spellFrom_append, hend, List.getLast?_append_of_ne_nil] at hc
    · exact .inl hc
    · simp [hname, hne]
  · intro c hc
    rw [List.append_nil, spellFrom_append, hend, List.getLast?_append_of_ne_nil _ (by simp)] at hc
    exact .inr (by simpa using hc.symm)

/-! ### Paths that are read -/

theorem readParts_of_parse {text : String} {p : FieldPath} (h : parse text = .ok p) :
    readParts text (pieces '.' (trim text.toList)) = .ok p.segments := by
  simp only [parse] at h
  split at h
  next => cases h
  next =>
    cases hparts : readParts text (pieces '.' (trim text.toList)) with
    | error e =>
        rw [hparts] at h
        cases h
    | ok steps =>
        rw [hparts] at h
        cases h
        rfl

theorem exists_first_of_parse {text : String} {p : FieldPath} (h : parse text = .ok p) :
    ∃ name n rest more, name ≠ [] ∧ '[' ∉ name ∧ '.' ∉ name ∧
      trim text.toList = name ++ (PathPart.brackets n ++ rest) ∧ (∀ c ∈ rest.head?, c = '.') ∧
      p.segments = segmentOfName name :: (List.replicate n .wildcard ++ more) := by
  have hread := readParts_of_parse h
  obtain ⟨first, others, hpieces, htext⟩ := exists_pieces '.' (trim text.toList)
  rw [hpieces] at hread
  obtain ⟨steps, more, hfirst, -, hsegments⟩ := readParts_cons.mp hread
  obtain ⟨name, n, hne, hbracket, rfl, rfl⟩ := exists_of_readPart hfirst
  have hdot : '.' ∉ name ++ PathPart.brackets n := fun hmem =>
    (mem_pieces (hpieces ▸ List.mem_cons_self) _ hmem).2 rfl
  refine ⟨name, n, others.flatMap ('.' :: ·), more, hne, hbracket,
    fun hmem => hdot (List.mem_append_left _ hmem), by rw [htext, List.append_assoc], ?_,
    by rw [hsegments]; rfl⟩
  cases others with
  | nil => simp
  | cons part parts =>
      rintro c ⟨⟩
      rfl

/-- The spelling of a path that was read has no blank at either end. -/
theorem trimmed_spelled {text : String} {p : FieldPath} (h : parse text = .ok p) :
    Trimmed p.spelled.toList := by
  have htrimmed := trimmed_trim text.toList
  rw [spelled, String.toList_ofList]
  constructor
  · obtain ⟨name, n, rest, more, hne, -, -, htext, -, hsegments⟩ := exists_first_of_parse h
    rw [hsegments, segmentOfName]
    split
    next =>
      obtain ⟨later, hlater⟩ := exists_spellFrom ['[', '*', ']']
        (List.replicate n .wildcard ++ more) (by simp)
      rw [spellFrom, List.nil_append, hlater]
      rintro c ⟨⟩
      decide
    next =>
      obtain ⟨later, hlater⟩ := exists_spellFrom name (List.replicate n .wildcard ++ more) hne
      rw [spellFrom, if_pos List.isEmpty_nil, String.toList_ofList, hlater,
        List.head?_append_of_ne_nil _ hne]
      rw [htext] at htrimmed
      have hhead := htrimmed.head
      rwa [List.head?_append_of_ne_nil _ hne] at hhead
  · have hread := readParts_of_parse h
    obtain ⟨init, last, hparts⟩ :=
      (List.eq_nil_or_concat _).resolve_left (pieces_ne_nil '.' (trim text.toList))
    rw [List.concat_eq_append] at hparts
    rw [hparts] at hread
    intro c hc
    rcases getLast?_spellFrom hread [] c hc with hlast | rfl
    · have hne : last ≠ [] := List.ne_nil_of_mem (List.mem_of_mem_getLast? hlast)
      rw [getLast?_of_pieces hparts hne] at hlast
      exact htrimmed.last c hlast
    · decide

theorem spellable_of_parse {text : String} {p : FieldPath} (h : parse text = .ok p) :
    ∀ n ∈ p.fields, Spellable n ∧ n ≠ "*" :=
  spellable_of_readParts (readParts_of_parse h) fun _ hpart hmem => (mem_pieces hpart _ hmem).2 rfl

/-! ### Reading again -/

/-- The first name in the text is the mark of a wildcard. -/
def startsWithMark (text : String) : Bool :=
  match trim text.toList with
  | '*' :: rest => rest.head?.all fun c => c == '.' || c == '['
  | _ => false

/-- A path that was read starts with a field unless its text starts with the mark of a wildcard. -/
theorem rooted_iff_of_parse {text : String} {p : FieldPath} (h : parse text = .ok p) :
    p.Rooted ↔ startsWithMark text = false := by
  obtain ⟨name, n, rest, more, hne, hbracket, hdot, htext, hrest, hsegments⟩ :=
    exists_first_of_parse h
  have hrooted : p.Rooted ↔ name ≠ ['*'] := by
    rw [Rooted, hsegments, segmentOfName]
    split <;> simp [*]
  have hmark : startsWithMark text = true ↔ name = ['*'] := by
    rw [startsWithMark, htext]
    obtain ⟨c, tail, rfl⟩ := List.exists_cons_of_ne_nil hne
    by_cases hc : c = '*'
    · subst hc
      show (tail ++ (PathPart.brackets n ++ rest)).head?.all _ = true ↔ _
      cases tail with
      | nil =>
          -- What follows the mark is a bracket, a dot or nothing.
          refine iff_of_true ?_ rfl
          cases n with
          | zero =>
              rw [Option.all_eq_true]
              intro d hd
              rw [hrest d hd]
              rfl
          | succ n => rfl
      | cons d tail =>
          have hd : d ≠ '.' ∧ d ≠ '[' :=
            ⟨fun e => hdot (by simp [e]), fun e => hbracket (by simp [e])⟩
          simp [hd]
    · simp [hc]
  rw [hrooted, ← Bool.not_eq_true, hmark]

theorem parse_spelled_of_not_rooted {text : String} {p : FieldPath} (h : parse text = .ok p)
    (hp : ¬ p.Rooted) : parse p.spelled = .error (.emptySegment p.spelled) := by
  obtain ⟨more, hmore⟩ : ∃ more, p.spelled.toList = '[' :: more := by
    obtain ⟨name, n, rest, more, -, -, -, -, -, hsegments⟩ := exists_first_of_parse h
    rw [Rooted, hsegments] at hp
    rw [spelled, String.toList_ofList, hsegments]
    cases hfirst : segmentOfName name with
    | field name => exact absurd ⟨name, _, by rw [hfirst]⟩ hp
    | wildcard =>
        obtain ⟨later, hlater⟩ := exists_spellFrom ['[', '*', ']']
          (List.replicate n .wildcard ++ more) (by simp)
        exact ⟨_, hlater⟩
  obtain ⟨first, others, -, hpieces⟩ := pieces_cons (show '[' ≠ '.' by decide) more
  have htrim := (trimmed_spelled h).trim_eq
  rw [hmore] at htrim
  rw [parse, hmore, htrim, hpieces]
  rfl

/-- A path that was read is read again from its spelling unless its text starts with the mark of a
wildcard; then its spelling is no path. -/
theorem parse_spelled_iff {text : String} {p : FieldPath} (h : parse text = .ok p) :
    (parse p.spelled = .ok p ↔ startsWithMark text = false) ∧
      (startsWithMark text = true → parse p.spelled = .error (.emptySegment p.spelled)) := by
  have hrooted := rooted_iff_of_parse h
  cases hmark : startsWithMark text with
  | false =>
      have again := parse_spelled (hrooted.mpr hmark) (spellable_of_parse h) (trimmed_spelled h)
      exact ⟨iff_of_true again rfl, fun e => Bool.noConfusion e⟩
  | true =>
      have refused := parse_spelled_of_not_rooted h fun hp => by simp [hrooted.mp hp] at hmark
      refine ⟨iff_of_false (fun again => ?_) Bool.noConfusion, fun _ => refused⟩
      rw [refused] at again
      cases again

/-- Several spellings of wildcards in one text, and blanks around it. -/
theorem parse_spelled_iff_mixed :
    parse " rule_set.*[*]. days left " =
        .ok ⟨[.field "rule_set", .wildcard, .wildcard, .field " days left"]⟩ ∧
      startsWithMark " rule_set.*[*]. days left " = false ∧
      parse "rule_set[*][*]. days left" =
        .ok ⟨[.field "rule_set", .wildcard, .wildcard, .field " days left"]⟩ := by
  have hread : parse " rule_set.*[*]. days left " =
      .ok ⟨[.field "rule_set", .wildcard, .wildcard, .field " days left"]⟩ := by decide +kernel
  have hmark : startsWithMark " rule_set.*[*]. days left " = false := by decide +kernel
  exact ⟨hread, hmark, (parse_spelled_iff hread).1.mpr hmark⟩

/-- A path that starts with a wildcard is read, but its spelling is not. -/
theorem leading_wildcard_refused :
    parse "*.days" = .ok ⟨[.wildcard, .field "days"]⟩ ∧
      (⟨[.wildcard, .field "days"]⟩ : FieldPath).spelled = "[*].days" ∧
      parse "[*].days" = .error (.emptySegment "[*].days") := by
  decide +kernel

end FieldPath

end ResourceTypes
