import ResourceTypes.Field.Comment
import ResourceTypes.Proofs.Text.Pieces

/-! # Directives

What the body of a directive means (`Directive.Means`) and what is wrong with it (`Directive.Fault`)
are told by its key and value.  Each body either means something or has a fault (`means_or_fault`),
and reading it gives what it means or its fault.

So a line of a description is text, a directive or malformed (`line_cases`), and of one kind alone.
Over the lines of a description two things are told: the fault of the first malformed line
(`FirstFault`) and the value of the last directive of a kind (`LastSaid`). -/

namespace ResourceTypes

open Text

/-! ### Directives -/

namespace Directive

/-- The body is the key and the value, with blanks around them; the first equals sign parts them. -/
def Assigns (body : List Char) (key value : String) : Prop :=
  ∃ before after, body = before ++ '=' :: after ∧ '=' ∉ before ∧
    String.ofList (trim before) = key ∧ String.ofList (trim after) = value

/-- What the body of a directive overrides. -/
inductive Means (body : List Char) : Directive → Prop
  | tfTag {tag : String} (assigns : Assigns body "TFTag" tag) : Means body (.tfTag tag)
  | jsonTag {tag : String} (assigns : Assigns body "JSONTag" tag) : Means body (.jsonTag tag)
  | required {value : Bool} (assigns : Assigns body "Required" (toString value)) :
      Means body (.required value)

/-- Why the body of a directive is malformed. -/
inductive Fault (body : List Char) : DirectiveError → Prop
  | missingValue (unassigned : '=' ∉ body) : Fault body (.missingValue (String.ofList body))
  | unknownKey {key value : String} (assigns : Assigns body key value)
      (unknown : key ∉ ["TFTag", "JSONTag", "Required"]) : Fault body (.unknownKey key)
  | invalidRequired {value : String} (assigns : Assigns body "Required" value)
      (invalid : value ∉ ["true", "false"]) : Fault body (.invalidRequired value)

variable {body : List Char} {d : Directive} {e : DirectiveError}

theorem parse_of_assigns {key value : String} (h : Assigns body key value) :
    parse body =
      if key = "TFTag" then .ok (.tfTag value)
      else if key = "JSONTag" then .ok (.jsonTag value)
      else if key = "Required" then
        if value = "true" then .ok (.required true)
        else if value = "false" then .ok (.required false)
        else .error (.invalidRequired value)
      else .error (.unknownKey key) := by
  obtain ⟨before, after, rfl, hbefore, rfl, rfl⟩ := h
  rw [parse, cutAt_append hbefore]

theorem parse_of_means (h : Means body d) : parse body = .ok d := by
  cases h with
  | tfTag assigns => exact parse_of_assigns assigns
  | jsonTag assigns => exact parse_of_assigns assigns
  | @required value assigns => cases value <;> exact parse_of_assigns assigns

theorem parse_of_fault (h : Fault body e) : parse body = .error e := by
  cases h with
  | missingValue unassigned => rw [parse, cutAt_of_not_mem unassigned]
  | unknownKey assigns unknown =>
      simp only [List.mem_cons, List.not_mem_nil, or_false, not_or] at unknown
      rw [parse_of_assigns assigns, if_neg unknown.1, if_neg unknown.2.1, if_neg unknown.2.2]
  | invalidRequired assigns invalid =>
      simp only [List.mem_cons, List.not_mem_nil, or_false, not_or] at invalid
      rw [parse_of_assigns assigns, if_neg (by decide), if_neg (by decide), if_pos rfl,
        if_neg invalid.1, if_neg invalid.2]

theorem means_or_fault (body : List Char) : (∃ d, Means body d) ∨ ∃ e, Fault body e := by
  by_cases h : '=' ∈ body
  · obtain ⟨before, after, hbody, hbefore⟩ := List.eq_append_cons_of_mem h
    have assigns : Assigns body _ _ := ⟨before, after, hbody, hbefore, rfl, rfl⟩
    by_cases known : String.ofList (trim before) ∈ ["TFTag", "JSONTag", "Required"]
    · simp only [List.mem_cons, List.not_mem_nil, or_false] at known
      rcases known with hkey | hkey | hkey <;> rw [hkey] at assigns
      · exact .inl ⟨_, .tfTag assigns⟩
      · exact .inl ⟨_, .jsonTag assigns⟩
      · by_cases valid : String.ofList (trim after) ∈ ["true", "false"]
        · simp only [List.mem_cons, List.not_mem_nil, or_false] at valid
          rcases valid with hvalue | hvalue <;> rw [hvalue] at assigns
          · exact .inl ⟨.required true, .required assigns⟩
          · exact .inl ⟨.required false, .required assigns⟩
        · exact .inr ⟨_, .invalidRequired assigns valid⟩
    · exact .inr ⟨_, .unknownKey assigns known⟩
  · exact .inr ⟨_, .missingValue h⟩

end Directive

/-! ### Kinds of lines -/

/-- The line is no directive. -/
def TextLine (line : List Char) : Prop := ¬ directiveMark <+: trim line

instance (line : List Char) : Decidable (TextLine line) :=
  inferInstanceAs (Decidable (¬ directiveMark <+: trim line))

/-- The line is a directive for the override. -/
def DirectiveLine (line : List Char) (d : Directive) : Prop :=
  ∃ body, trim line = directiveMark ++ body ∧ Directive.Means body d

/-- The line is a directive with the fault. -/
def MalformedLine (line : List Char) (e : DirectiveError) : Prop :=
  ∃ body, trim line = directiveMark ++ body ∧ Directive.Fault body e

/-- The first malformed line has the fault. -/
inductive FirstFault : List (List Char) → DirectiveError → Prop
  | here {line : List Char} {rest : List (List Char)} {e : DirectiveError}
      (malformed : MalformedLine line e) : FirstFault (line :: rest) e
  | later {line : List Char} {rest : List (List Char)} {e : DirectiveError}
      (sound : ∀ e, ¬ MalformedLine line e) (next : FirstFault rest e) : FirstFault (line :: rest) e

/-- No line is a directive of the kind. -/
def Silent {α : Type} (make : α → Directive) (lines : List (List Char)) : Prop :=
  ∀ line ∈ lines, ∀ v, ¬ DirectiveLine line (make v)

/-- The last directive of the kind has the value. -/
inductive LastSaid {α : Type} (make : α → Directive) : List (List Char) → α → Prop
  | here {line : List Char} {rest : List (List Char)} {v : α} (said : DirectiveLine line (make v))
      (silent : Silent make rest) : LastSaid make (line :: rest) v
  | later {line : List Char} {rest : List (List Char)} {v : α} (next : LastSaid make rest v) :
      LastSaid make (line :: rest) v

variable {line : List Char} {lines rest : List (List Char)} {d : Directive} {e : DirectiveError}

theorem directiveBody?_of_textLine (h : TextLine line) : directiveBody? line = none := by
  by_contra hbody
  obtain ⟨body, hbody⟩ := Option.ne_none_iff_exists'.mp hbody
  exact h ⟨body, (eq_append_of_after? hbody).symm⟩

theorem DirectiveLine.read (h : DirectiveLine line d) :
    (directiveBody? line).map Directive.parse = some (.ok d) := by
  obtain ⟨body, hbody, means⟩ := h
  rw [directiveBody?, hbody, after?_append, Option.map_some, Directive.parse_of_means means]

theorem MalformedLine.read (h : MalformedLine line e) :
    (directiveBody? line).map Directive.parse = some (.error e) := by
  obtain ⟨body, hbody, fault⟩ := h
  rw [directiveBody?, hbody, after?_append, Option.map_some, Directive.parse_of_fault fault]

theorem TextLine.not_directiveLine (h : TextLine line) (d : Directive) : ¬ DirectiveLine line d :=
  fun ⟨body, hbody, _⟩ => h ⟨body, hbody.symm⟩

theorem TextLine.not_malformedLine (h : TextLine line) (e : DirectiveError) :
    ¬ MalformedLine line e :=
  fun ⟨body, hbody, _⟩ => h ⟨body, hbody.symm⟩

theorem DirectiveLine.unique {d' : Directive} (h : DirectiveLine line d)
    (h' : DirectiveLine line d') : d = d' := by
  simpa using h.read.symm.trans h'.read

theorem DirectiveLine.not_malformedLine (h : DirectiveLine line d) (e : DirectiveError) :
    ¬ MalformedLine line e :=
  fun h' => by simpa using h.read.symm.trans h'.read

theorem MalformedLine.unique {e' : DirectiveError} (h : MalformedLine line e)
    (h' : MalformedLine line e') : e = e' := by
  simpa using h.read.symm.trans h'.read

theorem line_cases (line : List Char) :
    TextLine line ∨ (∃ d, DirectiveLine line d) ∨ ∃ e, MalformedLine line e := by
  by_cases h : directiveMark <+: trim line
  · obtain ⟨body, hbody⟩ := h
    exact .inr ((Directive.means_or_fault body).imp (fun ⟨d, means⟩ => ⟨d, body, hbody.symm, means⟩)
      fun ⟨e, fault⟩ => ⟨e, body, hbody.symm, fault⟩)
  · exact .inl h

/-! ### Lines in order -/

theorem firstFault_cons_iff :
    FirstFault (line :: rest) e ↔
      MalformedLine line e ∨ (∀ e, ¬ MalformedLine line e) ∧ FirstFault rest e := by
  constructor
  · rintro (malformed | ⟨sound, next⟩)
    · exact .inl malformed
    · exact .inr ⟨sound, next⟩
  · rintro (malformed | ⟨sound, next⟩)
    · exact .here malformed
    · exact .later sound next

theorem exists_firstFault_iff :
    (∃ e, FirstFault lines e) ↔ ∃ line ∈ lines, ∃ e, MalformedLine line e := by
  induction lines with
  | nil => exact ⟨nofun, nofun⟩
  | cons line rest ih =>
      simp only [firstFault_cons_iff, exists_or, exists_and_left, ih, List.exists_mem_cons_iff]
      by_cases h : ∃ e, MalformedLine line e
      · exact iff_of_true (.inl h) (.inl h)
      · rw [and_iff_right (not_exists.mp h)]

section

variable {α : Type} {make : α → Directive} {v : α}

theorem silent_cons_iff :
    Silent make (line :: rest) ↔ (∀ v, ¬ DirectiveLine line (make v)) ∧ Silent make rest :=
  List.forall_mem_cons

theorem lastSaid_cons_iff :
    LastSaid make (line :: rest) v ↔
      DirectiveLine line (make v) ∧ Silent make rest ∨ LastSaid make rest v := by
  constructor
  · rintro (⟨said, silent⟩ | next)
    · exact .inl ⟨said, silent⟩
    · exact .inr next
  · rintro (⟨said, silent⟩ | next)
    · exact .here said silent
    · exact .later next

theorem said_cons_iff (rest : List (List Char)) (v : α)
    (other : ∀ v, ¬ DirectiveLine line (make v)) :
    (LastSaid make (line :: rest) v ↔ LastSaid make rest v) ∧
      (Silent make (line :: rest) ↔ Silent make rest) := by
  rw [lastSaid_cons_iff, silent_cons_iff, or_iff_right fun said => other v said.1]
  exact ⟨Iff.rfl, and_iff_right other⟩

end

end ResourceTypes
