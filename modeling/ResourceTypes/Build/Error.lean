import ResourceTypes.Declaration.ValueType
import ResourceTypes.Field.Comment
import ResourceTypes.SymbolTable

/-! # Build errors

An error raised deep in a schema is wrapped once for each step of the way out, so that the
message names the whole path. `BuildError.rootCause` is the error inside all wrapping. -/

namespace ResourceTypes

/-- A step of a build inside which an error arose; a label is a chain of ancestor names. -/
inductive BuildStep where
  | types (kind : String)
  | parametersName (label : String)
  | observationName (label : String)
  | fieldType (path : FieldPath)
  | field (path : FieldPath)
  | elementSchema (label : String)
  | elementResource (label : String)
deriving DecidableEq, Repr

/-- The wording of a step. -/
def BuildStep.message : BuildStep → String
  | .types kind => "cannot build the types of " ++ kind
  | .parametersName label => "cannot generate parameters type name of " ++ label
  | .observationName label => "cannot generate observation type name of " ++ label
  | .fieldType path => "cannot infer type from schema of field " ++ path.spelled
  | .field path => "cannot build field " ++ path.spelled
  | .elementSchema label => "cannot infer type from schema of element type of " ++ label
  | .elementResource label =>
    "cannot infer type from resource schema of element type of " ++ label

/-- Why a build fails. -/
inductive BuildError where
  | unsupportedElement (label : String)
  | invalidKind (kind : ValueKind)
  | invalidSensitiveType (actual : ValueType) (field : String)
  | nameExhausted (name : String)
  | emptyNameChain
  | comment (description : String) (cause : DirectiveError)
  | depthLimit (limit : Nat)
  | context (step : BuildStep) (inner : BuildError)
deriving DecidableEq, Repr

namespace BuildError

/-- The wording of an error: its steps from the outside in, then its cause. -/
def message : BuildError → String
  | .unsupportedElement label =>
    "element type of " ++ label ++ " is basic but not one of known basic types"
  | .invalidKind kind => "invalid schema type " ++ kind.label
  | .invalidSensitiveType actual field =>
    "got type \"" ++ actual.text ++ "\" for field \"" ++ field
      ++ "\", only types \"string\" and \"*string\" supported as sensitive"
  | .nameExhausted name => "could not generate a unique name for " ++ name
  | .emptyNameChain => "cannot generate a type name from an empty name chain"
  | .comment description cause =>
    "cannot build comment for description: " ++ description ++ ": " ++ cause.message
  | .depthLimit limit => "schema nesting exceeds the depth limit of " ++ toString limit
  | .context step inner => step.message ++ ": " ++ inner.message

/-- The error inside all wrapping. -/
def rootCause : BuildError → BuildError
  | .context _ inner => inner.rootCause
  | e => e

/-- The steps around an error from the outside in. -/
def steps : BuildError → List BuildStep
  | .context step inner => step :: inner.steps
  | _ => []

/-- An allocation that failed as a build error. -/
def ofAllocation : AllocationError → BuildError
  | .exhausted name => .nameExhausted name
  | .emptyChain => .emptyNameChain

end BuildError

end ResourceTypes
