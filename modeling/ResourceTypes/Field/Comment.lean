import ResourceTypes.Config
import ResourceTypes.Text.Lines

/-! # Field documentation

The description of an attribute becomes the documentation of its field. A line that begins
with the directive mark is no text: it names a key and a value that override a tag or say
whether the field is required. All other lines are kept without the blanks at their ends, and
empty lines at both ends of the text are dropped. `Comment.parse` reads a description and
`Comment.render` writes the lines with the markers of the field after them. -/

namespace ResourceTypes

/-- Why a directive is malformed. -/
inductive DirectiveError where
  | missingValue (directive : String)
  | unknownKey (key : String)
  | invalidRequired (value : String)
deriving DecidableEq, Repr

/-- The wording of a directive error. -/
def DirectiveError.message : DirectiveError → String
  | .missingValue directive => "directive " ++ directive ++ " has no value"
  | .unknownKey key => "unknown directive key " ++ key
  | .invalidRequired value => "directive Required expects true or false, got " ++ value

/-- What a directive overrides. -/
inductive Directive where
  | tfTag (tag : String)
  | jsonTag (tag : String)
  | required (value : Bool)
deriving DecidableEq, Repr

/-- Documentation of one field. -/
structure Comment where
  lines : List String := []
  tfTag : Option String := none
  jsonTag : Option String := none
  /-- The required flag that a directive asks for. -/
  requiredOverride : Option Bool := none
  /-- The required flag of the field, which only fields that can be set have. -/
  required : Option Bool := none
  reference : Option Reference := none
deriving DecidableEq, Repr

/-! ### Directives -/

/-- The mark of a directive. -/
def directiveMark : List Char := "+tfcrd:field:".toList

/-- A directive given what follows its mark. -/
def Directive.parse (body : List Char) : Except DirectiveError Directive :=
  match Text.cutAt '=' body with
  | none => .error (.missingValue (String.ofList body))
  | some (key, value) =>
    let key := String.ofList (Text.trim key)
    let value := String.ofList (Text.trim value)
    if key = "TFTag" then .ok (.tfTag value)
    else if key = "JSONTag" then .ok (.jsonTag value)
    else if key = "Required" then
      if value = "true" then .ok (.required true)
      else if value = "false" then .ok (.required false)
      else .error (.invalidRequired value)
    else .error (.unknownKey key)

/-- What follows the directive mark of a line, if the line has one. -/
def directiveBody? (line : List Char) : Option (List Char) :=
  Text.after? directiveMark (Text.trim line)

/-! ### Reading -/

namespace Comment

/-- The documentation with an override in place. -/
def override (c : Comment) : Directive → Comment
  | .tfTag tag => { c with tfTag := some tag }
  | .jsonTag tag => { c with jsonTag := some tag }
  | .required value => { c with requiredOverride := some value }

/-- Takes in lines one by one; the first malformed directive ends the reading. -/
def readLines (c : Comment) : List (List Char) → Except DirectiveError Comment
  | [] => .ok c
  | line :: rest =>
    match directiveBody? line with
    | none =>
      readLines { c with lines := c.lines ++ [String.ofList (Text.trimEnd line)] } rest
    | some body =>
      match Directive.parse body with
      | .error e => .error e
      | .ok d => readLines (c.override d) rest

/-- The lines without empty ones at either end. -/
def withoutEmptyEnds (lines : List String) : List String :=
  ((lines.reverse.dropWhile String.isEmpty).reverse).dropWhile String.isEmpty

/-- Reads a description. -/
def parse (description : String) : Except DirectiveError Comment :=
  match readLines {} (Text.lines description.toList) with
  | .error e => .error e
  | .ok c => .ok { c with lines := withoutEmptyEnds c.lines }

/-- Documentation without text, for a field that is required or not. -/
def markerOnly (required : Bool) : Comment := { required := some required }

/-! ### Writing -/

/-- The marker of a required or an optional field. -/
def requiredMarker : Bool → String
  | true => "+kubebuilder:validation:Required"
  | false => "+kubebuilder:validation:Optional"

/-- The markers of a reference. -/
def referenceMarkers (r : Reference) : List String :=
  ("+crossplane:generate:reference:type=" ++ r.typeName) ::
    r.extractor.toList.map fun e => "+crossplane:generate:reference:extractor=" ++ e

/-- The markers of a field. -/
def markers (c : Comment) : List String :=
  c.required.toList.map requiredMarker ++ c.reference.toList.flatMap referenceMarkers

/-- The lines and the markers, one on each line. -/
def render (c : Comment) : String := "\n".intercalate (c.lines ++ c.markers)

end Comment

end ResourceTypes
