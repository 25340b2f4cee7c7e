import ResourceTypes.Proofs.Path.Reading

/-! # The grammar of paths

A part is a name, which is not empty and has no bracket, with the brackets of wildcards after it
(`IsPart`).  A text is read as a path exactly when all pieces of its trimmed form between dots are
parts, and the path has the steps of the parts one after the other (`readParts_ok_iff`).  Of
another text the first piece that is no part decides the error (`readParts_error_iff`).

Brackets and the mark between dots are two spellings of a wildcard.  In `dotted` each bracket is
replaced by the mark; by `pieces_dotted` this turns a part into several parts with the same steps.
All is put together in `parse_grammar`. -/

namespace ResourceTypes

open Text

namespace PathPart

/-- The name is there, and shows where it ends. -/
structure Named (x : PathPart) : Prop where
  ne_empty : x.name ≠ ""
  no_bracket : '[' ∉ x.name.toList

/-- What a part stands for: a wildcard for the name `*` and a field for any other, then a wildcard
for each bracket. -/
def steps (x : PathPart) : List Segment :=
  (if x.name = "*" then .wildcard else .field x.name) :: List.replicate x.wildcards .wildcard

/-- The parts with the mark of a wildcard in place of each bracket. -/
def spread (x : PathPart) : List PathPart := ⟨x.name, 0⟩ :: List.replicate x.wildcards ⟨"*", 0⟩

end PathPart

namespace FieldPath

/-- The text is a name with the brackets of wildcards after it. -/
def IsPart (part : List Char) : Prop := ∃ x : PathPart, x.Named ∧ part = x.spelled

/-- The error of a text that is no part: nothing stands before its first bracket, or else something
stands after it that is no wildcard. -/
def partError (text : String) (part : List Char) : PathError :=
  if part = [] ∨ part.head? = some '[' then .emptySegment text else .malformedBracket text

/-- The text with `.*` in place of every `[*]`. -/
def dotted : List Char → List Char
  | [] => []
  | '[' :: '*' :: ']' :: rest => '.' :: '*' :: dotted rest
  | c :: rest => c :: dotted rest

/-! ### One part -/

theorem segmentOfName_toList (name : String) :
    segmentOfName name.toList = if name = "*" then .wildcard else .field name := by
  have hstar : name.toList = ['*'] ↔ name = "*" := by rw [← String.toList_inj]; rfl
  simp only [segmentOfName, hstar, String.ofList_toList]

theorem readPart_ok_iff {text : String} {part : List Char} {steps : List Segment} :
    readPart text part = .ok steps ↔
      ∃ x : PathPart, x.Named ∧ part = x.spelled ∧ steps = x.steps := by
  constructor
  · intro h
    obtain ⟨name, n, hne, hbracket, rfl, rfl⟩ := exists_of_readPart h
    have hname : (String.ofList name).toList = name := String.toList_ofList
    refine ⟨⟨String.ofList name, n⟩, ⟨?_, by rwa [hname]⟩, ?_, ?_⟩
    · rwa [← String.toList_inj.ne, hname]
    · rw [PathPart.spelled, hname]
    · rw [PathPart.steps, ← segmentOfName_toList, hname]
  · rintro ⟨x, hx, rfl, rfl⟩
    obtain ⟨hname, hwildcards⟩ := PathPart.span_spelled hx.no_bracket
    have hempty : x.name.toList.isEmpty = false := by
      simpa [List.isEmpty_iff] using hx.ne_empty
    simp only [readPart, hname, hwildcards, hempty, PathPart.readBrackets_brackets,
      segmentOfName_toList, Bool.false_eq_true, if_false, PathPart.steps]

theorem eq_partError {text : String} {part : List Char} {e : PathError}
    (h : readPart text part = .error e) : e = partError text part := by
  have hempty : (part.takeWhile (· != '[')).isEmpty = true ↔
      part = [] ∨ part.head? = some '[' := by
    cases part with
    | nil => simp
    | cons c part => by_cases hc : c = '[' <;> simp [hc]
  simp only [readPart] at h
  rw [partError]
  split at h
  next hname =>
    rw [if_pos (hempty.mp hname)]
    exact (Except.error.inj h).symm
  next hname =>
    rw [if_neg fun hbad => hname (hempty.mpr hbad)]
    split at h
    · exact (Except.error.inj h).symm
    · cases h

theorem readPart_error_iff {text : String} {part : List Char} {e : PathError} :
    readPart text part = .error e ↔ ¬ IsPart part ∧ e = partError text part := by
  cases h : readPart text part with
  | ok steps =>
      obtain ⟨x, hx, hpart, -⟩ := readPart_ok_iff.mp h
      exact iff_of_false nofun fun hbad => hbad.1 ⟨x, hx, hpart⟩
  | error d =>
      have hbad : ¬ IsPart part := by
        rintro ⟨x, hx, hpart⟩
        rw [readPart_ok_iff.mpr ⟨x, hx, hpart, rfl⟩] at h
        cases h
      rw [← eq_partError h, Except.error.injEq, eq_comm]
      exact (and_iff_right hbad).symm

/-! ### All parts -/

theorem readParts_ok_iff {text : String} {parts : List (List Char)} {steps : List Segment} :
    readParts text parts = .ok steps ↔
      ∃ xs : List PathPart, (∀ x ∈ xs, x.Named) ∧ parts = xs.map PathPart.spelled ∧
        steps = xs.flatMap PathPart.steps := by
  induction parts generalizing steps with
  | nil =>
      constructor
      · rintro ⟨⟩
        exact ⟨[], by simp, rfl, rfl⟩
      · rintro ⟨xs, -, hxs, rfl⟩
        rw [List.map_eq_nil_iff.mp hxs.symm]
        rfl
  | cons part parts ih =>
      rw [readParts_cons]
      constructor
      · rintro ⟨first, more, hfirst, hmore, rfl⟩
        obtain ⟨x, hx, rfl, rfl⟩ := readPart_ok_iff.mp hfirst
        obtain ⟨xs, hxs, rfl, rfl⟩ := ih.mp hmore
        exact ⟨x :: xs, List.forall_mem_cons.mpr ⟨hx, hxs⟩, rfl, rfl⟩
      · rintro ⟨_ | ⟨x, xs⟩, hxs, hparts, rfl⟩
        · cases hparts
        · obtain ⟨hx, hxs⟩ := List.forall_mem_cons.mp hxs
          obtain ⟨hpart, hparts⟩ := List.cons.inj hparts
          exact ⟨x.steps, xs.flatMap PathPart.steps, readPart_ok_iff.mpr ⟨x, hx, hpart, rfl⟩,
            ih.mpr ⟨xs, hxs, hparts, rfl⟩, rfl⟩

/-- The parts before the first bad one are read, and do not matter. -/
theorem readParts_error_iff {text : String} {parts : List (List Char)} {e : PathError} :
    readParts text parts = .error e ↔
      ∃ before bad after, parts = before ++ bad :: after ∧ (∀ part ∈ before, IsPart part) ∧
        ¬ IsPart bad ∧ e = partError text bad := by
  induction parts with
  | nil =>
      refine iff_of_false nofun ?_
      rintro ⟨before, bad, after, hparts, -⟩
      simp at hparts
  | cons part parts ih =>
      rw [readParts]
      cases hpart : readPart text part with
      | error d =>
          obtain ⟨hbad, rfl⟩ := readPart_error_iff.mp hpart
          constructor
          · rintro ⟨⟩
            exact ⟨[], part, parts, rfl, by simp, hbad, rfl⟩
          · rintro ⟨_ | ⟨first, before⟩, bad, after, hparts, hbefore, -, rfl⟩
            · rw [(List.cons.inj hparts).1]
            · exact absurd (hbefore first List.mem_cons_self) ((List.cons.inj hparts).1 ▸ hbad)
      | ok steps =>
          obtain ⟨x, hx, hx', -⟩ := readPart_ok_iff.mp hpart
          have hgood : IsPart part := ⟨x, hx, hx'⟩
          have hrest : (∃ before bad after, part :: parts = before ++ bad :: after ∧
              (∀ part ∈ before, IsPart part) ∧ ¬ IsPart bad ∧ e = partError text bad) ↔
              readParts text parts = .error e := by
            rw [ih]
            constructor
            · rintro ⟨_ | ⟨first, before⟩, bad, after, hparts, hbefore, hbad, rfl⟩
              · exact absurd hgood ((List.cons.inj hparts).1 ▸ hbad)
              · exact ⟨before, bad, after, (List.cons.inj hparts).2,
                  (List.forall_mem_cons.mp hbefore).2, hbad, rfl⟩
            · rintro ⟨before, bad, after, rfl, hbefore, hbad, rfl⟩
              exact ⟨part :: before, bad, after, rfl,
                List.forall_mem_cons.mpr ⟨hgood, hbefore⟩, hbad, rfl⟩
          rw [hrest]
          cases readParts text parts <;> simp

/-! ### Texts -/

theorem parse_ok_iff {text : String} {p : FieldPath} :
    parse text = .ok p ↔ trim text.toList ≠ [] ∧
      readParts text (pieces '.' (trim text.toList)) = .ok p.segments := by
  simp only [parse, List.isEmpty_iff]
  split
  next hempty => simp [hempty]
  next hne =>
    rw [and_iff_right hne]
    cases readParts text (pieces '.' (trim text.toList)) with
    | error e => simp [Except.map]
    | ok steps => cases p; simp [Except.map]

theorem parse_error_iff {text : String} {e : PathError} :
    parse text = .error e ↔ (blank text.toList = true ∧ e = .empty) ∨
      (blank text.toList = false ∧
        readParts text (pieces '.' (trim text.toList)) = .error e) := by
  rw [← Bool.not_eq_true, ← trim_eq_nil_iff]
  simp only [parse, List.isEmpty_iff]
  split
  next hempty => simp [hempty, eq_comm]
  next hne => cases readParts text (pieces '.' (trim text.toList)) <;> simp [hne, Except.map]

/-! ### Marks for brackets -/

theorem dotted_append {a : List Char} (h : '[' ∉ a) (b : List Char) :
    dotted (a ++ b) = a ++ dotted b := by
  induction a with
  | nil => rfl
  | cons c a ih =>
      rw [List.mem_cons, not_or] at h
      rw [List.cons_append, dotted, ih h.2, List.cons_append]
      exact fun rest hbracket => absurd hbracket.symm h.1

theorem dotted_brackets (n : Nat) (rest : List Char) :
    dotted (PathPart.brackets n ++ rest) =
      ((List.replicate n (PathPart.mk "*" 0)).map PathPart.spelled).flatMap ('.' :: ·) ++
        dotted rest := by
  induction n with
  | zero => rfl
  | succ n ih =>
      rw [PathPart.brackets_succ, List.cons_append, List.cons_append, List.cons_append, dotted, ih]
      rfl

/-- Parts with a dot before each become the parts that have marks for their brackets. -/
theorem dotted_parts {xs : List PathPart} (h : ∀ x ∈ xs, x.Named) (rest : List Char) :
    dotted ((xs.map PathPart.spelled).flatMap ('.' :: ·) ++ rest) =
      ((xs.flatMap PathPart.spread).map PathPart.spelled).flatMap ('.' :: ·) ++ dotted rest := by
  induction xs with
  | nil => rfl
  | cons x xs ih =>
      obtain ⟨hx, hxs⟩ := List.forall_mem_cons.mp h
      have hname : '[' ∉ '.' :: x.name.toList := by simp [hx.no_bracket]
      have hmark : (PathPart.mk x.name 0).spelled = x.name.toList := List.append_nil _
      rw [List.map_cons, List.flatMap_cons, PathPart.spelled, List.append_assoc, ← List.cons_append,
        List.append_assoc, dotted_append hname, dotted_brackets, ih hxs, List.flatMap_cons,
        List.map_append, List.flatMap_append, PathPart.spread, List.map_cons, List.flatMap_cons,
        hmark]
      simp only [List.append_assoc]

theorem mem_spread {x y : PathPart} (h : y ∈ x.spread) : y = ⟨x.name, 0⟩ ∨ y = ⟨"*", 0⟩ :=
  (List.mem_cons.mp h).imp_right List.eq_of_mem_replicate

theorem named_spread {xs : List PathPart} (h : ∀ x ∈ xs, x.Named) :
    ∀ y ∈ xs.flatMap PathPart.spread, y.Named := by
  intro y hy
  obtain ⟨x, hx, hy⟩ := List.mem_flatMap.mp hy
  rcases mem_spread hy with rfl | rfl
  · exact ⟨(h x hx).ne_empty, (h x hx).no_bracket⟩
  · exact ⟨by decide, by decide⟩

theorem steps_spread (xs : List PathPart) :
    (xs.flatMap PathPart.spread).flatMap PathPart.steps = xs.flatMap PathPart.steps := by
  have hmark : (PathPart.mk "*" 0).steps = [.wildcard] := by decide
  rw [List.flatMap_assoc]
  refine List.flatMap_congr fun x _ => ?_
  rw [PathPart.spread, List.flatMap_cons, List.flatMap_replicate, hmark,
    List.flatten_replicate_singleton]
  rfl

/-- Of a text that is made of parts, the parts with marks for brackets are the pieces of the text
with marks for brackets, whatever follows. -/
theorem pieces_dotted {s : List Char} {xs : List PathPart} (h : ∀ x ∈ xs, x.Named)
    (hs : pieces '.' s = xs.map PathPart.spelled) :
    pieces '.' (dotted s) = (xs.flatMap PathPart.spread).map PathPart.spelled ∧
      ∀ rest, dotted (s ++ rest) = dotted s ++ dotted rest := by
  have hdots : '.' :: s = (xs.map PathPart.spelled).flatMap ('.' :: ·) := by
    obtain ⟨first, others, hpieces, htext⟩ := exists_pieces '.' s
    rw [← hs, hpieces, htext]
    rfl
  -- The text is read with a dot in front, so that its first part is like the others.
  have hdotted (rest : List Char) : '.' :: dotted (s ++ rest) =
      ((xs.flatMap PathPart.spread).map PathPart.spelled).flatMap ('.' :: ·) ++ dotted rest := by
    rw [← dotted_parts h, ← hdots, List.cons_append, dotted]
    simp
  have halone := hdotted []
  rw [List.append_nil, dotted, List.append_nil] at halone
  refine ⟨?_, fun rest => List.cons.inj ((hdotted rest).trans (by rw [← halone]; rfl)) |>.2⟩
  have nodot : ∀ y ∈ xs.flatMap PathPart.spread, '.' ∉ y.spelled := by
    intro y hy
    obtain ⟨x, hx, hy⟩ := List.mem_flatMap.mp hy
    have hpart : '.' ∉ x.spelled := fun hdot =>
      (mem_pieces (hs ▸ List.mem_map_of_mem hx) _ hdot).2 rfl
    rcases mem_spread hy with rfl | rfl
    · exact PathPart.not_mem_spelled (fun hdot => hpart (List.mem_append_left _ hdot)) (by decide)
    · decide
  cases hparts : xs.flatMap PathPart.spread with
  | nil =>
      rw [hparts] at halone
      cases halone
  | cons y ys =>
      rw [hparts] at halone nodot
      rw [(List.cons.inj halone).2]
      refine pieces_join (nodot y List.mem_cons_self) ?_
      simpa using fun z hz => nodot z (List.mem_cons_of_mem y hz)

theorem dotted_eq_nil_iff {s : List Char} : dotted s = [] ↔ s = [] := by
  fun_cases dotted s <;> simp

theorem head?_dotted (s : List Char) : ∀ c ∈ (dotted s).head?, c ∈ s.head? ∨ c = '.' := by
  fun_cases dotted s <;> simp

theorem getLast?_dotted (s : List Char) :
    ∀ c ∈ (dotted s).getLast?, c ∈ s.getLast? ∨ c = '*' := by
  fun_induction dotted s with
  | case1 => simp
  | case2 rest ih =>
      intro c hc
      rw [List.getLast?_cons_cons, List.getLast?_cons, Option.mem_some_iff] at hc
      cases hrest : (dotted rest).getLast? with
      | none =>
          rw [hrest] at hc
          exact .inr hc.symm
      | some d =>
          rw [hrest, Option.getD_some] at hc
          refine (ih c (by rw [hrest, hc]; rfl)).imp_left fun hlast => ?_
          show c ∈ (['[', '*', ']'] ++ rest).getLast?
          rw [List.getLast?_append, Option.mem_def.mp hlast]
          rfl
  | case3 c rest hbracket ih =>
      intro d hd
      rw [List.getLast?_cons, Option.mem_some_iff] at hd ⊢
      cases hrest : (dotted rest).getLast? with
      | none =>
          rw [List.getLast?_eq_none_iff, dotted_eq_nil_iff] at hrest
          subst hrest
          exact .inl hd
      | some e =>
          rw [hrest, Option.getD_some] at hd
          refine (ih d (by rw [hrest, hd]; rfl)).imp_left fun hlast => ?_
          rw [Option.mem_def.mp hlast, Option.getD_some]

theorem trimmed_dotted {s : List Char} (h : Trimmed s) : Trimmed (dotted s) := by
  constructor
  · intro c hc
    rcases head?_dotted s c hc with hhead | rfl
    · exact h.head c hhead
    · decide
  · intro c hc
    rcases getLast?_dotted s c hc with hlast | rfl
    · exact h.last c hlast
    · decide

theorem parse_dotted {text : String} {p : FieldPath} (h : parse text = .ok p) :
    parse (String.ofList (dotted text.toList)) = .ok p := by
  obtain ⟨hne, hread⟩ := parse_ok_iff.mp h
  obtain ⟨xs, hxs, hpieces, hsteps⟩ := readParts_ok_iff.mp hread
  obtain ⟨before, after, hbefore, hafter, htext⟩ := exists_trim text.toList
  have htrimmed := trimmed_trim text.toList
  generalize trim text.toList = s at *
  obtain ⟨hdotted, happend⟩ := pieces_dotted hxs hpieces
  have nobracket {s : List Char} (hs : blank s = true) : '[' ∉ s := fun hmem => by
    simpa [isBlank_mark] using List.all_eq_true.mp hs '[' hmem
  -- Only the trimmed form has brackets.
  have htrim : trim (dotted text.toList) = dotted s := by
    have hend := dotted_append (nobracket hafter) []
    rw [List.append_nil, dotted, List.append_nil] at hend
    rw [htext, List.append_assoc, dotted_append (nobracket hbefore), happend, hend,
      ← List.append_assoc]
    exact (trimmed_dotted htrimmed).trim_append (mt dotted_eq_nil_iff.mp hne) hbefore hafter
  rw [parse_ok_iff, String.toList_ofList, htrim, hdotted]
  refine ⟨mt dotted_eq_nil_iff.mp hne, readParts_ok_iff.mpr ⟨_, named_spread hxs, rfl, ?_⟩⟩
  rw [steps_spread, hsteps]

/-- Which texts are paths, and of which steps; the error of any other text; and the two spellings of
wildcards. -/
theorem parse_grammar (text : String) :
    (∀ p, parse text = .ok p ↔ trim text.toList ≠ [] ∧
      ∃ xs : List PathPart, (∀ x ∈ xs, x.Named) ∧
        pieces '.' (trim text.toList) = xs.map PathPart.spelled ∧
        p.segments = xs.flatMap PathPart.steps) ∧
    (∀ e, parse text = .error e ↔ (blank text.toList = true ∧ e = .empty) ∨
      (blank text.toList = false ∧ ∃ before bad after,
        pieces '.' (trim text.toList) = before ++ bad :: after ∧
        (∀ part ∈ before, IsPart part) ∧ ¬ IsPart bad ∧ e = partError text bad)) ∧
    ∀ p, parse text = .ok p → parse (String.ofList (dotted text.toList)) = .ok p := by
  refine ⟨fun p => ?_, fun e => ?_, fun p => parse_dotted⟩
  · rw [parse_ok_iff, readParts_ok_iff]
  · rw [parse_error_iff, readParts_error_iff]

/-- Names that hold a star or a closing bracket, and both spellings of wildcards. -/
theorem parse_grammar_starred :
    parse " rule[*][*].*.day*s] " =
        .ok ⟨[.field "rule", .wildcard, .wildcard, .wildcard, .field "day*s]"]⟩ ∧
      parse " rule.*.*.*.day*s] " =
        .ok ⟨[.field "rule", .wildcard, .wildcard, .wildcard, .field "day*s]"]⟩ := by
  have hread : parse " rule[*][*].*.day*s] " =
      .ok ⟨[.field "rule", .wildcard, .wildcard, .wildcard, .field "day*s]"]⟩ := by decide +kernel
  have htext : String.ofList (dotted " rule[*][*].*.day*s] ".toList) =
      " rule.*.*.*.day*s] " := by decide +kernel
  have hdotted := (parse_grammar _).2.2 _ hread
  rw [htext] at hdotted
  exact ⟨hread, hdotted⟩

end FieldPath

end ResourceTypes
