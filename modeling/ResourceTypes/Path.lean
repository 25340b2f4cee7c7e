import ResourceTypes.Name
import ResourceTypes.Text.Quoted

/-! # Field paths

A path leads from the root of a resource to an attribute: field names, and a wildcard for any
element of a collection. `FieldPath.parse` reads the dotted spelling, where a wildcard is
written `[*]` after a name or `*` for one; `FieldPath.spelled` writes it, and
`FieldPath.collapsed` writes the field names alone. Paths that differ in
wildcards only name the same fields. A canonical path holds camel-cased names and no wildcard. -/

namespace ResourceTypes

open Text

/-- One step of a path. -/
inductive Segment where
  | field (name : String)
  | wildcard
deriving DecidableEq, Repr

/-- Fields by name, and every field before the wildcard. -/
def compareSegment : Segment → Segment → Ordering
  | .field a, .field b => compare a b
  | .field _, .wildcard => .lt
  | .wildcard, .field _ => .gt
  | .wildcard, .wildcard => .eq

instance : Ord Segment := ⟨compareSegment⟩

instance : Std.TransOrd Segment where
  eq_swap {s t} :=
    match s, t with
    | .field a, .field b => show compare a b = (compare b a).swap from Std.OrientedOrd.eq_swap
    | .field _, .wildcard | .wildcard, .field _ | .wildcard, .wildcard => rfl
  isLE_trans {s t u} h₁ h₂ := by
    cases s with
    | field a =>
      cases u with
      | wildcard => rfl
      | field c =>
        cases t with
        | wildcard => cases h₂
        | field b => exact Std.TransOrd.isLE_trans (b := b) h₁ h₂
    | wildcard =>
      cases t with
      | field b => cases h₁
      | wildcard => exact h₂

instance : Std.LawfulEqOrd Segment where
  eq_of_compare {s t} h := by
    cases s with
    | field a =>
      cases t with
      | field b => exact congrArg Segment.field (Std.LawfulEqOrd.eq_of_compare h)
      | wildcard => cases h
    | wildcard =>
      cases t with
      | field b => cases h
      | wildcard => rfl

/-- The steps from the root outward. -/
structure FieldPath where
  segments : List Segment
deriving DecidableEq, Repr

/-- A path of field names alone, in camel case. -/
structure CanonicalPath where
  names : List String
deriving DecidableEq, Repr

instance : Ord FieldPath := ⟨compareOn FieldPath.segments⟩

instance : Std.TransOrd FieldPath := inferInstanceAs (Std.TransCmp (compareOn _))

instance : Std.LawfulEqOrd FieldPath where
  eq_of_compare h := congrArg FieldPath.mk (Std.LawfulEqOrd.eq_of_compare h)

instance : Ord CanonicalPath := ⟨compareOn CanonicalPath.names⟩

instance : Std.TransOrd CanonicalPath := inferInstanceAs (Std.TransCmp (compareOn _))

instance : Std.LawfulEqOrd CanonicalPath where
  eq_of_compare h := congrArg CanonicalPath.mk (Std.LawfulEqOrd.eq_of_compare h)

/-- Why a text is no path; each cause but the first carries the text. -/
inductive PathError where
  | empty
  | emptySegment (text : String)
  | malformedBracket (text : String)
  | wildcardInCanonical (text : String)
deriving DecidableEq, Repr

/-- The wording of a path error. -/
def PathError.message : PathError → String
  | .empty => "path must not be empty"
  | .emptySegment text => "path " ++ quoted text ++ " contains an empty segment"
  | .malformedBracket text => "path " ++ quoted text ++ " contains a malformed bracket segment"
  | .wildcardInCanonical text =>
    "canonical path " ++ quoted text ++ " must not contain wildcards"

/-- The name of a field segment. -/
def Segment.name? : Segment → Option String
  | .field name => some name
  | .wildcard => none

namespace FieldPath

/-- The path without steps. -/
def root : FieldPath := ⟨[]⟩

/-- One field further. -/
def child (p : FieldPath) (name : String) : FieldPath := ⟨p.segments ++ [.field name]⟩

/-- Any element of the collection at the path. -/
def wildcard (p : FieldPath) : FieldPath := ⟨p.segments ++ [.wildcard]⟩

/-- The path has no steps. -/
def isRoot (p : FieldPath) : Bool := p.segments.isEmpty

/-- The field names on the path. -/
def fields (p : FieldPath) : List String := p.segments.filterMap Segment.name?

/-- Both paths name the same fields. -/
def sameFields (p q : FieldPath) : Bool := p.fields == q.fields

/-- The path passes through a collection. -/
def hasWildcard (p : FieldPath) : Bool := p.segments.contains .wildcard

/-! ### Spelling -/

/-- The field names joined by dots. -/
def collapsed (p : FieldPath) : String :=
  String.ofList (['.'].intercalate (p.fields.map String.toList))

/-- Adds the spelling of further segments; no dot comes before a name when nothing is written
yet. -/
def spellFrom (written : List Char) : List Segment → List Char
  | [] => written
  | .field name :: rest =>
    spellFrom (if written.isEmpty then name.toList else written ++ '.' :: name.toList) rest
  | .wildcard :: rest => spellFrom (written ++ ['[', '*', ']']) rest

/-- The dotted spelling with wildcards. -/
def spelled (p : FieldPath) : String := String.ofList (spellFrom [] p.segments)

/-! ### Reading -/

/-- The wildcards that a run of brackets stands for. -/
def readBrackets : List Char → Option (List Segment)
  | [] => some []
  | '[' :: '*' :: ']' :: rest => (readBrackets rest).map (.wildcard :: ·)
  | _ => none

/-- The step that a name stands for. -/
def segmentOfName (name : List Char) : Segment :=
  if name = ['*'] then .wildcard else .field (String.ofList name)

/-- The steps of one part between dots: a name, then brackets. -/
def readPart (text : String) (part : List Char) : Except PathError (List Segment) :=
  let name := part.takeWhile (· != '[')
  if name.isEmpty then .error (.emptySegment text)
  else match readBrackets (part.dropWhile (· != '[')) with
    | none => .error (.malformedBracket text)
    | some wildcards => .ok (segmentOfName name :: wildcards)

/-- The steps of all parts; the leftmost bad part decides the error. -/
def readParts (text : String) : List (List Char) → Except PathError (List Segment)
  | [] => .ok []
  | part :: rest =>
    match readPart text part with
    | .error e => .error e
    | .ok steps =>
      match readParts text rest with
      | .error e => .error e
      | .ok more => .ok (steps ++ more)

/-- Reads a dotted path; blanks around it do not count. -/
def parse (text : String) : Except PathError FieldPath :=
  let trimmed := trim text.toList
  if trimmed.isEmpty then .error .empty
  else (readParts text (pieces '.' trimmed)).map FieldPath.mk

/-- The path in the canonical convention: wildcards dropped and names in camel case. -/
def canonical (p : FieldPath) : CanonicalPath :=
  ⟨p.fields.map fun name => (FieldName.ofSnake name).camel⟩

end FieldPath

namespace CanonicalPath

/-- The path without names. -/
def root : CanonicalPath := ⟨[]⟩

/-- One field further. -/
def child (p : CanonicalPath) (name : String) : CanonicalPath := ⟨p.names ++ [name]⟩

/-- The names joined by dots. -/
def spelled (p : CanonicalPath) : String :=
  String.ofList (['.'].intercalate (p.names.map String.toList))

/-- Reads a dotted path that holds no wildcard. -/
def parse (text : String) : Except PathError CanonicalPath :=
  match FieldPath.parse text with
  | .error e => .error e
  | .ok p => if p.hasWildcard then .error (.wildcardInCanonical text) else .ok ⟨p.fields⟩

end CanonicalPath

end ResourceTypes
