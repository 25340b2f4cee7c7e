import ResourceTypes.Path
import ResourceTypes.Proofs.Text.Ascii
import ResourceTypes.Proofs.Text.Pieces
import ResourceTypes.Proofs.Text.Trim

/-! # Spellings of paths

A path that starts with a field is a list of parts, each a field name with the wildcards after it
(`Rooted.exists_parts`).  Its spelling joins the spellings of the parts by dots
(`spelled_ofParts`), so that cutting it at dots gives them back, provided that no name has a dot
in it (`pieces_spelled`).  A part is given back by its spelling when its name has no bracket.

Hence the spelling of such a path determines the path (`spelled_injective`), and reading it gives
the path back (`parse_spelled`) when no name is the mark of a wildcard and the spelling is
trimmed.  Both hold for names of letters, digits and underscores, and a canonical path of such
names is given back, too (`CanonicalPath.parse_spelled_of_plain`). -/

namespace ResourceTypes

open Text

/-! ### Parts -/

/-- A field name with the number of wildcards after it. -/
structure PathPart where
  name : String
  wildcards : Nat

namespace PathPart

/-- The steps of a part. -/
def segments (x : PathPart) : List Segment :=
  .field x.name :: List.replicate x.wildcards .wildcard

/-- The brackets that stand for wildcards. -/
def brackets (n : Nat) : List Char := (List.replicate n ['[', '*', ']']).flatten

/-- The spelling of a part. -/
def spelled (x : PathPart) : List Char := x.name.toList ++ brackets x.wildcards

theorem brackets_succ (n : Nat) : brackets (n + 1) = '[' :: '*' :: ']' :: brackets n := rfl

theorem brackets_concat (n : Nat) : brackets (n + 1) = brackets n ++ ['[', '*', ']'] := by
  simp [brackets, List.replicate_succ']

theorem length_brackets (n : Nat) : (brackets n).length = 3 * n := by
  simp [brackets, Nat.mul_comm]

theorem readBrackets_brackets (n : Nat) :
    FieldPath.readBrackets (brackets n) = some (List.replicate n .wildcard) := by
  induction n with
  | zero => rfl
  | succ n ih =>
      rw [brackets_succ, FieldPath.readBrackets, ih]
      rfl

theorem mem_brackets {c : Char} {n : Nat} (h : c ∈ brackets n) : c ∈ ['[', '*', ']'] := by
  obtain ⟨l, hl, hc⟩ := List.mem_flatten.mp h
  rwa [List.eq_of_mem_replicate hl] at hc

theorem not_mem_spelled {x : PathPart} {c : Char} (hname : c ∉ x.name.toList)
    (hc : c ∉ ['[', '*', ']']) : c ∉ x.spelled :=
  fun h => (List.mem_append.mp h).elim hname fun h => hc (mem_brackets h)

theorem span_spelled {x : PathPart} (h : '[' ∉ x.name.toList) :
    x.spelled.takeWhile (· != '[') = x.name.toList ∧
      x.spelled.dropWhile (· != '[') = brackets x.wildcards := by
  have hname : ∀ c ∈ x.name.toList, (c != '[') = true := fun c hc =>
    bne_iff_ne.mpr fun e => h (e ▸ hc)
  rw [spelled, List.takeWhile_append_of_pos hname, List.dropWhile_append_of_pos hname]
  cases x.wildcards with
  | zero => exact ⟨List.append_nil _, rfl⟩
  | succ n => simp [brackets_succ]

theorem eq_of_spelled_eq {x y : PathPart} (hx : '[' ∉ x.name.toList) (hy : '[' ∉ y.name.toList)
    (h : x.spelled = y.spelled) : x = y := by
  obtain ⟨hxn, hxw⟩ := span_spelled hx
  obtain ⟨hyn, hyw⟩ := span_spelled hy
  have hname : x.name = y.name := String.toList_inj.mp (by rw [← hxn, ← hyn, h])
  have hlen : 3 * x.wildcards = 3 * y.wildcards := by
    rw [← length_brackets, ← length_brackets, ← hxw, ← hyw, h]
  cases x
  cases y
  rw [mk.injEq]
  exact ⟨hname, Nat.eq_of_mul_eq_mul_left (by decide) hlen⟩

theorem readPart_spelled (text : String) {x : PathPart} (hne : x.name ≠ "")
    (hbracket : '[' ∉ x.name.toList) (hstar : x.name ≠ "*") :
    FieldPath.readPart text x.spelled = .ok x.segments := by
  obtain ⟨hname, hwildcards⟩ := span_spelled hbracket
  have hempty : x.name.toList.isEmpty = false := by
    simpa [List.isEmpty_iff] using hne
  have hsegment : FieldPath.segmentOfName x.name.toList = .field x.name := by
    rw [FieldPath.segmentOfName, if_neg, String.ofList_toList]
    intro h
    exact hstar (String.toList_inj.mp h)
  simp only [FieldPath.readPart, hname, hwildcards, hempty, readBrackets_brackets, hsegment,
    Bool.false_eq_true, if_false, segments]

end PathPart

namespace FieldPath

/-- The path of a list of parts. -/
def ofParts (parts : List PathPart) : FieldPath := ⟨parts.flatMap PathPart.segments⟩

/-- The path starts with a field. -/
def Rooted (p : FieldPath) : Prop := ∃ name rest, p.segments = .field name :: rest

theorem fields_ofParts (parts : List PathPart) :
    (ofParts parts).fields = parts.map PathPart.name := by
  induction parts with
  | nil => rfl
  | cons x parts ih =>
      rw [fields, ofParts] at ih ⊢
      rw [List.flatMap_cons, List.filterMap_append, ih]
      simp [PathPart.segments, Segment.name?]

/-- Wildcards stand at the start of a list of steps or after the name of a part. -/
theorem exists_parts (segments : List Segment) :
    ∃ (n : Nat) (parts : List PathPart),
      segments = List.replicate n .wildcard ++ parts.flatMap PathPart.segments := by
  induction segments with
  | nil => exact ⟨0, [], rfl⟩
  | cons segment rest ih =>
      obtain ⟨n, parts, rfl⟩ := ih
      cases segment with
      | wildcard => exact ⟨n + 1, parts, rfl⟩
      | field name => exact ⟨0, ⟨name, n⟩ :: parts, rfl⟩

theorem Rooted.exists_parts {p : FieldPath} (h : p.Rooted) :
    ∃ x parts, p = ofParts (x :: parts) := by
  obtain ⟨name, rest, hp⟩ := h
  obtain ⟨n, parts, hrest⟩ := FieldPath.exists_parts rest
  refine ⟨⟨name, n⟩, parts, ?_⟩
  cases p
  cases hp
  rw [hrest]
  rfl

/-! ### Spellings -/

theorem spellFrom_wildcards (written : List Char) (n : Nat) (rest : List Segment) :
    spellFrom written (List.replicate n .wildcard ++ rest) =
      spellFrom (written ++ PathPart.brackets n) rest := by
  induction n generalizing written with
  | zero => simp [PathPart.brackets]
  | succ n ih =>
      rw [List.replicate_succ, List.cons_append, spellFrom, ih, PathPart.brackets_succ]
      simp

theorem spellFrom_parts {written : List Char} (h : written ≠ []) (parts : List PathPart) :
    spellFrom written (parts.flatMap PathPart.segments) =
      written ++ (parts.map PathPart.spelled).flatMap ('.' :: ·) := by
  induction parts generalizing written with
  | nil => simp [spellFrom]
  | cons x parts ih =>
      rw [List.flatMap_cons, PathPart.segments, List.cons_append, spellFrom, spellFrom_wildcards,
        if_neg (by simpa [List.isEmpty_iff] using h), ih (by simp)]
      simp [PathPart.spelled]

/-- A path is spelled part by part, with dots between the parts. -/
theorem spelled_ofParts {x : PathPart} (h : x.name ≠ "") (parts : List PathPart) :
    (ofParts (x :: parts)).spelled =
      String.ofList (x.spelled ++ (parts.map PathPart.spelled).flatMap ('.' :: ·)) := by
  have hne : x.name.toList ≠ [] := by simpa using h
  rw [spelled, ofParts, List.flatMap_cons, PathPart.segments, List.cons_append, spellFrom,
    spellFrom_wildcards, if_pos List.isEmpty_nil, spellFrom_parts (by simp [hne])]
  rfl

/-- A name whose spelling in a path shows where it ends. -/
structure Spellable (name : String) : Prop where
  ne_empty : name ≠ ""
  no_dot : '.' ∉ name.toList
  no_bracket : '[' ∉ name.toList

/-- The pieces of a spelling between dots are the spellings of the parts. -/
theorem pieces_spelled {parts : List PathPart} (hne : parts ≠ [])
    (h : ∀ x ∈ parts, Spellable x.name) :
    pieces '.' (ofParts parts).spelled.toList = parts.map PathPart.spelled := by
  cases parts with
  | nil => exact absurd rfl hne
  | cons x parts =>
      have nodot : ∀ y ∈ x :: parts, '.' ∉ y.spelled := fun y hy =>
        PathPart.not_mem_spelled (h y hy).no_dot (by decide)
      rw [spelled_ofParts (h x List.mem_cons_self).ne_empty, String.toList_ofList,
        pieces_join (nodot x List.mem_cons_self)]
      · rfl
      · simpa using fun y hy => nodot y (List.mem_cons_of_mem x hy)

theorem eq_of_map_spelled_eq {parts parts' : List PathPart}
    (h : ∀ x ∈ parts, Spellable x.name) (h' : ∀ x ∈ parts', Spellable x.name)
    (heq : parts.map PathPart.spelled = parts'.map PathPart.spelled) : parts = parts' := by
  induction parts generalizing parts' with
  | nil => exact (List.map_eq_nil_iff.mp heq.symm).symm
  | cons x parts ih =>
      cases parts' with
      | nil => cases heq
      | cons y parts' =>
          obtain ⟨hx, h⟩ := List.forall_mem_cons.mp h
          obtain ⟨hy, h'⟩ := List.forall_mem_cons.mp h'
          obtain ⟨hxy, heq⟩ := List.cons.inj heq
          rw [PathPart.eq_of_spelled_eq hx.no_bracket hy.no_bracket hxy, ih h h' heq]

/-- The spelling of a path with spellable names determines the path. -/
theorem spelled_injective {p q : FieldPath} (hp : p.Rooted) (hq : q.Rooted)
    (hpn : ∀ n ∈ p.fields, Spellable n) (hqn : ∀ n ∈ q.fields, Spellable n)
    (h : p.spelled = q.spelled) : p = q := by
  obtain ⟨x, parts, rfl⟩ := hp.exists_parts
  obtain ⟨y, parts', rfl⟩ := hq.exists_parts
  rw [fields_ofParts, List.forall_mem_map] at hpn hqn
  have hpieces := pieces_spelled (List.cons_ne_nil x parts) hpn
  rw [h, pieces_spelled (List.cons_ne_nil y parts') hqn] at hpieces
  rw [eq_of_map_spelled_eq hqn hpn hpieces]

theorem readParts_spelled (text : String) {parts : List PathPart}
    (h : ∀ x ∈ parts, Spellable x.name ∧ x.name ≠ "*") :
    readParts text (parts.map PathPart.spelled) = .ok (ofParts parts).segments := by
  induction parts with
  | nil => rfl
  | cons x parts ih =>
      obtain ⟨⟨hx, hstar⟩, hparts⟩ := List.forall_mem_cons.mp h
      have hpart := PathPart.readPart_spelled text hx.ne_empty hx.no_bracket hstar
      simp only [List.map_cons, readParts, hpart, ih hparts, ofParts, List.flatMap_cons]

/-- Reading the spelling of a path gives the path back. -/
theorem parse_spelled {p : FieldPath} (hp : p.Rooted) (hn : ∀ n ∈ p.fields, Spellable n ∧ n ≠ "*")
    (htrim : Trimmed p.spelled.toList) : parse p.spelled = .ok p := by
  obtain ⟨x, parts, rfl⟩ := hp.exists_parts
  rw [fields_ofParts, List.forall_mem_map] at hn
  have hx := (hn x List.mem_cons_self).1.ne_empty
  have hne : (ofParts (x :: parts)).spelled.toList.isEmpty = false := by
    rw [spelled_ofParts hx, String.toList_ofList, PathPart.spelled]
    simp [hx]
  rw [parse, htrim.trim_eq, hne, if_neg Bool.false_ne_true,
    pieces_spelled (List.cons_ne_nil x parts) fun y hy => (hn y hy).1, readParts_spelled _ hn]
  rfl

/-! ### Paths of plain names -/

theorem spellFrom_append (written : List Char) (segments more : List Segment) :
    spellFrom written (segments ++ more) = spellFrom (spellFrom written segments) more := by
  induction segments generalizing written with
  | nil => rfl
  | cons segment segments ih =>
      cases segment <;> rw [List.cons_append, spellFrom, spellFrom, ih]

theorem spelled_child_append (p : FieldPath) (name more : String) :
    (p.child name).spelled ++ more = (p.child (name ++ more)).spelled := by
  rw [spelled, spelled, child, child, spellFrom_append, spellFrom_append]
  simp only [spellFrom]
  split
  · rw [String.ofList_toList, String.ofList_toList]
  · rw [← String.toList_inj]
    simp

theorem isBlank_mark {c : Char} (h : c ∈ ['.', '[', '*', ']']) : isBlank c = false := by
  simp only [List.mem_cons, List.not_mem_nil, or_false] at h
  rcases h with rfl | rfl | rfl | rfl <;> decide

/-- The characters of a spelling are those of the names and the marks between them. -/
theorem mem_spellFrom {c : Char} {written : List Char} {segments : List Segment}
    (h : c ∈ spellFrom written segments) :
    c ∈ written ∨ (∃ n ∈ segments.filterMap Segment.name?, c ∈ n.toList) ∨
      c ∈ ['.', '[', '*', ']'] := by
  induction segments generalizing written with
  | nil => exact .inl h
  | cons segment segments ih =>
      cases segment with
      | wildcard =>
          rcases ih h with hc | hc | hc
          · refine (List.mem_append.mp hc).imp_right fun hc => .inr (List.mem_cons_of_mem _ hc)
          · exact .inr (.inl hc)
          · exact .inr (.inr hc)
      | field name =>
          have hname : (Segment.field name).name? = some name := rfl
          rw [List.filterMap_cons_some hname]
          rcases ih h with hc | ⟨n, hn, hc⟩ | hc
          · split at hc
            · exact .inr (.inl ⟨name, List.mem_cons_self, hc⟩)
            rcases List.mem_append.mp hc with hc | hc
            · exact .inl hc
            rcases List.mem_cons.mp hc with rfl | hc
            · exact .inr (.inr List.mem_cons_self)
            · exact .inr (.inl ⟨name, List.mem_cons_self, hc⟩)
          · exact .inr (.inl ⟨n, List.mem_cons_of_mem _ hn, hc⟩)
          · exact .inr (.inr hc)

/-- A name of letters, digits and underscores. -/
structure PlainName (name : String) : Prop where
  ne_empty : name ≠ ""
  chars : ∀ c ∈ name.toList, c.isAlphanum = true ∨ c = '_'

theorem PlainName.of_alphanum {name : String} (hne : name ≠ "")
    (h : ∀ c ∈ name.toList, c.isAlphanum = true) : PlainName name :=
  ⟨hne, fun c hc => .inl (h c hc)⟩

theorem PlainName.spellable {name : String} (h : PlainName name) : Spellable name ∧ name ≠ "*" := by
  have absent {c : Char} (hc : (c.isAlphanum || c == '_') = false) : c ∉ name.toList := by
    intro hmem
    rcases h.chars c hmem with halpha | rfl
    · simp [halpha] at hc
    · simp at hc
  refine ⟨⟨h.ne_empty, absent (by decide), absent (by decide)⟩, ?_⟩
  rintro rfl
  exact absent (c := '*') (by decide) (by decide)

/-- Reading the spelling of a path with plain names gives the path back. -/
theorem parse_spelled_of_plain {p : FieldPath} (hp : p.Rooted)
    (hn : ∀ n ∈ p.fields, PlainName n) : parse p.spelled = .ok p := by
  refine parse_spelled hp (fun n h => (hn n h).spellable) (trimmed_of_forall fun c hc => ?_)
  rw [spelled, String.toList_ofList] at hc
  rcases mem_spellFrom hc with hc | ⟨n, h, hc⟩ | hc
  · cases hc
  · rcases (hn n h).chars c hc with halpha | rfl
    · exact isBlank_of_alphanum halpha
    · decide
  · exact isBlank_mark hc

end FieldPath

/-! ### Canonical paths -/

namespace CanonicalPath

theorem spelled_eq {p : CanonicalPath} (hne : p.names ≠ []) (h : ∀ n ∈ p.names, n ≠ "") :
    p.spelled = (FieldPath.ofParts (p.names.map fun n => ⟨n, 0⟩)).spelled := by
  obtain ⟨_ | ⟨first, others⟩⟩ := p
  · exact absurd rfl hne
  · have hspelled : PathPart.spelled ∘ (fun n => ⟨n, 0⟩) = String.toList := by
      funext n
      simp [PathPart.spelled, PathPart.brackets]
    rw [spelled, List.map_cons, List.map_cons, intercalate_cons,
      FieldPath.spelled_ofParts (h first List.mem_cons_self), List.map_map, hspelled]
    exact congrArg (fun f => String.ofList (f ++ _)) (congrFun hspelled first).symm

/-- Reading the spelling of a canonical path with plain names gives the path back. -/
theorem parse_spelled_of_plain {p : CanonicalPath} (hne : p.names ≠ [])
    (hn : ∀ n ∈ p.names, FieldPath.PlainName n) : parse p.spelled = .ok p := by
  have hfields : (FieldPath.ofParts (p.names.map fun n => ⟨n, 0⟩)).fields = p.names := by
    rw [FieldPath.fields_ofParts, List.map_map]
    exact List.map_id p.names
  have hwildcard : (FieldPath.ofParts (p.names.map fun n => ⟨n, 0⟩)).hasWildcard = false := by
    simp [FieldPath.hasWildcard, FieldPath.ofParts, PathPart.segments]
  have hrooted : (FieldPath.ofParts (p.names.map fun n => ⟨n, 0⟩)).Rooted := by
    obtain ⟨first, others, hp⟩ := List.exists_cons_of_ne_nil hne
    exact ⟨first, _, by rw [hp]; rfl⟩
  rw [parse, spelled_eq hne fun n h => (hn n h).ne_empty,
    FieldPath.parse_spelled_of_plain hrooted (by rwa [hfields])]
  simp only [hwildcard, hfields, Bool.false_eq_true, if_false]

end CanonicalPath

end ResourceTypes
