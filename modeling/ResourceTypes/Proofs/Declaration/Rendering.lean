import ResourceTypes.Declaration.Printer
import ResourceTypes.Proofs.Declaration.ValueType
import ResourceTypes.Proofs.Text.Unambiguous

/-! # Reading declarations

Nothing is lost when declarations are printed, and no documentation can pass for a declaration.
What is printed are the documented types: each with the lines that stand above each field
(`Generated.documented`).  From the text that begins with a documented field the lines and the
field are told, since a line of documentation goes on with a slash where a field goes on with a
name (`commentLine_ne_field`); from the text that begins with a type its fields are, since a brace
stands where a field has a tab.  Hence `render_inj`. -/

namespace ResourceTypes

open Text

/-! ### Legible declarations -/

/-- The name and the type of the field can be read, and no quotation mark is in its tags. -/
structure Field.Legible (f : Field) : Prop where
  name : isIdentifier f.name = true
  type : f.type.Legible
  json : '"' ∉ f.tags.json.toList
  tf : '"' ∉ f.tags.tf.toList

/-- The names of the type and of its fields can be read. -/
structure TypeDecl.Legible (t : TypeDecl) : Prop where
  name : isIdentifier t.name = true
  fields : ∀ f ∈ t.fields, f.Legible

/-- All declared types can be read. -/
def Generated.Legible (g : Generated) : Prop := ∀ t ∈ g.types, t.Legible

instance (f : Field) : Decidable f.Legible :=
  decidable_of_iff (isIdentifier f.name = true ∧ f.type.Legible ∧ '"' ∉ f.tags.json.toList ∧
    '"' ∉ f.tags.tf.toList)
    ⟨fun h => ⟨h.1, h.2.1, h.2.2.1, h.2.2.2⟩, fun h => ⟨h.name, h.type, h.json, h.tf⟩⟩

instance (t : TypeDecl) : Decidable t.Legible :=
  decidable_of_iff (isIdentifier t.name = true ∧ ∀ f ∈ t.fields, f.Legible)
    ⟨fun h => ⟨h.1, h.2⟩, fun h => ⟨h.name, h.fields⟩⟩

instance (g : Generated) : Decidable g.Legible :=
  inferInstanceAs (Decidable (∀ t ∈ g.types, t.Legible))

/-! ### What is printed -/

/-- The lines of documentation of a field. -/
def Generated.commentLines (g : Generated) (t : TypeDecl) (f : Field) : List (List Char) :=
  ((g.comments.get? (t.name, f.name)).map fun text => lines text.toList).getD []

/-- A field under its lines of documentation. -/
abbrev DocumentedField := List (List Char) × Field

/-- The name of a type with its documented fields. -/
abbrev DocumentedType := String × List DocumentedField

/-- The declared types with the documentation of their fields. -/
def Generated.documented (g : Generated) : List DocumentedType :=
  g.types.map fun t => (t.name, t.fields.map fun f => (g.commentLines t f, f))

/-- The line of a field. -/
def Field.line (f : Field) : List Char :=
  '\t' :: (f.name.toList ++ ' ' :: (f.type.text.toList ++
    ' ' :: (['`', 'j', 's', 'o', 'n', ':', '"'] ++ (f.tags.json.toList ++
      '"' :: ([' ', 't', 'f', ':', '"'] ++ (f.tags.tf.toList ++ '"' :: ['`', '\n']))))))

namespace DocumentedField

/-- The lines of a documented field. -/
def text (x : DocumentedField) : List Char :=
  x.1.flatMap (fun line => (commentLine line).toList) ++ x.2.line

/-- No line has an end in it, and the field can be read. -/
def Legible (x : DocumentedField) : Prop := (∀ line ∈ x.1, '\n' ∉ line) ∧ x.2.Legible

end DocumentedField

namespace DocumentedType

/-- The lines of a documented type. -/
def text (x : DocumentedType) : List Char :=
  ['t', 'y', 'p', 'e', ' '] ++ (x.1.toList ++
    ' ' :: (['s', 't', 'r', 'u', 'c', 't', ' ', '\x7b', '\n'] ++
      (x.2.flatMap DocumentedField.text ++ ['\x7d', '\n'])))

/-- The name of the type and its documented fields can be read. -/
def Legible (x : DocumentedType) : Prop :=
  isIdentifier x.1 = true ∧ ∀ y ∈ x.2, DocumentedField.Legible y

end DocumentedType

theorem Field.toList_render (g : Generated) (t : TypeDecl) (f : Field) :
    (f.render g.comments t.name).toList = DocumentedField.text (g.commentLines t f, f) := by
  rw [Field.render, DocumentedField.text, Generated.commentLines]
  cases g.comments.get? (t.name, f.name) with
  | none => simp [Field.line, Tags.text]
  | some text => simp [Field.line, Tags.text, commentText, String.toList_join, List.flatMap_map]

theorem Generated.toList_render (g : Generated) :
    g.render.toList = ['\n'].intercalate (g.documented.map DocumentedType.text) := by
  rw [Generated.render, String.toList_intercalate, Generated.documented, List.map_map,
    List.map_map]
  congr 1
  refine List.map_congr_left fun t ht => ?_
  simp only [Function.comp_apply, TypeDecl.render, DocumentedType.text, String.toList_append,
    String.toList_join, List.flatMap_map, Field.toList_render]
  simp

theorem Generated.Legible.documented {g : Generated} (h : g.Legible) :
    ∀ x ∈ g.documented, DocumentedType.Legible x := by
  refine List.forall_mem_map.mpr fun t ht => ⟨(h t ht).name, ?_⟩
  refine List.forall_mem_map.mpr fun f hf => ⟨fun line hline => ?_, (h t ht).fields f hf⟩
  dsimp only [Generated.commentLines] at hline
  cases htext : g.comments.get? (t.name, f.name) with
  | none =>
      rw [htext] at hline
      cases hline
  | some text =>
      rw [htext] at hline
      exact not_mem_of_mem_lines hline

/-! ### What is told from a text -/

theorem unambiguous_commentLine :
    Unambiguous (fun line => (commentLine line).toList) ('\n' ∉ ·) := by
  intro line line' h h' s t same
  cases line with
  | nil =>
      cases line' with
      | nil => simpa [commentLine] using same
      | cons d line' => simp [commentLine] at same
  | cons c line =>
      cases line' with
      | nil => simp [commentLine] at same
      | cons d line' =>
          refine word_inj h h' ?_
          simpa [commentLine] using same

theorem unambiguous_field : Unambiguous Field.line Field.Legible := by
  rintro ⟨name, type, json, tf⟩ ⟨name', type', json', tf'⟩ h h' s t same
  have space : isIdentifierChar ' ' = false := rfl
  simp only [Field.line, List.cons_append, List.nil_append, List.append_assoc, List.cons.injEq,
    true_and] at same
  -- Blanks end the name and the type, and quotation marks the tags.
  obtain ⟨hname, afterName⟩ := word_inj (not_mem_of_isIdentifier h.name space)
    (not_mem_of_isIdentifier h'.name space) same
  obtain ⟨htype, afterType⟩ := word_inj (ValueType.not_mem_text h.type)
    (ValueType.not_mem_text h'.type) afterName
  simp only [List.cons.injEq, true_and] at afterType
  obtain ⟨hjson, afterJson⟩ := word_inj h.json h'.json afterType
  simp only [List.cons.injEq, true_and] at afterJson
  obtain ⟨htf, afterTf⟩ := word_inj h.tf h'.tf afterJson
  simp only [List.cons.injEq, true_and] at afterTf
  obtain rfl := String.toList_inj.mp hname
  obtain rfl := ValueType.text_inj h.type h'.type htype
  obtain rfl := String.toList_inj.mp hjson
  obtain rfl := String.toList_inj.mp htf
  exact ⟨rfl, afterTf⟩

theorem exists_commentLine (line : List Char) :
    ∃ rest, (commentLine line).toList = '\t' :: '/' :: rest := by
  cases line <;> simp [commentLine]

/-- A line of documentation does not begin as a field does. -/
theorem commentLine_ne_field (line s t : List Char) {f : Field} (h : f.Legible) :
    (commentLine line).toList ++ s ≠ f.line ++ t := by
  intro same
  obtain ⟨c, rest, hname⟩ := List.exists_cons_of_ne_nil (ne_nil_of_isIdentifier h.name)
  have hc := isIdentifierChar_of_isIdentifier h.name c (by simp [hname])
  obtain ⟨rest', hline⟩ := exists_commentLine line
  rw [hline, Field.line, hname] at same
  obtain rfl : '/' = c := List.head_eq_of_cons_eq (List.tail_eq_of_cons_eq same)
  cases hc

theorem unambiguous_documentedField :
    Unambiguous DocumentedField.text DocumentedField.Legible :=
  unambiguous_commentLine.many unambiguous_field fun line _ s t _ hf =>
    commentLine_ne_field line s t hf

theorem DocumentedField.exists_text (x : DocumentedField) : ∃ rest, x.text = '\t' :: rest := by
  obtain ⟨comment, f⟩ := x
  cases comment with
  | nil => exact ⟨_, rfl⟩
  | cons line others =>
      obtain ⟨rest, hline⟩ := exists_commentLine line
      rw [text, List.flatMap_cons, hline]
      exact ⟨_, rfl⟩

theorem unambiguous_documentedType :
    Unambiguous DocumentedType.text DocumentedType.Legible := by
  rintro ⟨name, fields⟩ ⟨name', fields'⟩ ⟨h, hfields⟩ ⟨h', hfields'⟩ s t same
  have space : isIdentifierChar ' ' = false := rfl
  have ends : Unambiguous (fun _ : Unit => ['\x7d', '\n']) fun _ => True :=
    fun _ _ _ _ _ _ same => ⟨rfl, List.append_cancel_left same⟩
  have body := unambiguous_documentedField.many ends fun x _ s t _ _ same => by
    obtain ⟨rest, hrest⟩ := x.exists_text
    rw [hrest] at same
    cases same
  simp only [DocumentedType.text, List.cons_append, List.nil_append, List.append_assoc,
    List.cons.injEq, true_and] at same
  obtain ⟨hname, afterName⟩ := word_inj (not_mem_of_isIdentifier h space)
    (not_mem_of_isIdentifier h' space) same
  obtain ⟨hsame, rest⟩ := body (a := (fields, ())) (b := (fields', ())) ⟨hfields, trivial⟩
    ⟨hfields', trivial⟩ (by simpa using afterName)
  obtain rfl := String.toList_inj.mp hname
  cases hsame
  exact ⟨rfl, rest⟩

/-! ### Reading everything -/

theorem documented_inj {g g' : Generated} (h : g.Legible) (h' : g'.Legible)
    (same : g.render = g'.render) : g.documented = g'.documented := by
  have texts : ['\n'].intercalate (g.documented.map DocumentedType.text) =
      ['\n'].intercalate (g'.documented.map DocumentedType.text) := by
    rw [← g.toList_render, ← g'.toList_render, same]
  exact unambiguous_documentedType.intercalate_inj (fun _ => List.cons_ne_nil _ _) h.documented
    h'.documented texts

theorem Generated.types_eq (g : Generated) :
    g.types = g.documented.map fun x => ⟨x.1, x.2.map Prod.snd⟩ := by
  simp [Generated.documented, Function.comp_def]

/-- Declarations that are printed alike are the same types with the same lines of documentation at
each field. -/
theorem render_inj {g g' : Generated} (h : g.Legible) (h' : g'.Legible)
    (same : g.render = g'.render) :
    g.types = g'.types ∧
      ∀ t ∈ g.types, ∀ f ∈ t.fields, g.commentLines t f = g'.commentLines t f := by
  have hdocumented := documented_inj h h' same
  have htypes : g.types = g'.types := by rw [g.types_eq, g'.types_eq, hdocumented]
  refine ⟨htypes, fun t ht f hf => ?_⟩
  rw [Generated.documented, Generated.documented, ← htypes, List.map_inj_left] at hdocumented
  have hfields := List.map_inj_left.mp (Prod.mk.inj (hdocumented t ht)).2
  exact (Prod.mk.inj (hfields f hf)).1

/-- A type with one field, under documentation that looks like the end of the type. -/
def ruleTypes (text : String) : Generated where
  types := [⟨"RuleParameters", [⟨"Key_1", .pointer (.map (.list (.named "map"))), ⟨"key", "-"⟩⟩]⟩]
  comments := OrderedMap.empty.insert ("RuleParameters", "Key_1") text
  forProvider := 0
  atProvider := 0

theorem render_inj_rules :
    ∃ g g' : Generated, g.comments ≠ g'.comments ∧ g.Legible ∧ g'.Legible ∧ g.render = g'.render ∧
      g.types = g'.types ∧
      ∀ t ∈ g.types, ∀ f ∈ t.fields, g.commentLines t f = g'.commentLines t f := by
  have hreturn : (ruleTypes "a\r\n\n\x7d").Legible := by decide +kernel
  have hfeed : (ruleTypes "a\n\n\x7d\n").Legible := by decide +kernel
  have same : (ruleTypes "a\r\n\n\x7d").render = (ruleTypes "a\n\n\x7d\n").render := by
    decide +kernel
  exact ⟨_, _, by decide +kernel, hreturn, hfeed, same, render_inj hreturn hfeed same⟩

end ResourceTypes
