import ResourceTypes.Log.Line

/-! # Failures of operations

The log of an operation is classified as a failure when a line cannot be read or some line
contributes to the account of a failure. `ErrorChain.reports` finds the failure of an operation
anywhere in a chain of errors. -/

namespace ResourceTypes

/-- Operations that write logs. -/
inductive Operation where
  | apply
  | plan
  | refresh
  | destroy
deriving DecidableEq, Repr

namespace Operation

/-- The label of an operation. -/
def label : Operation → String
  | .apply => "apply"
  | .plan => "plan"
  | .refresh => "refresh"
  | .destroy => "destroy"

/-- All operations. -/
def all : List Operation := [.apply, .plan, .refresh, .destroy]

/-- The operation with the given label. -/
def ofLabel? (label : String) : Option Operation := all.find? fun o => o.label == label

end Operation

/-- The failure of an operation. -/
inductive Failure where
  /-- The log reports errors. -/
  | reported (operation : Operation) (account : String)
  /-- The log cannot be read. -/
  | unparsed (operation : Operation) (error : Json.ReadError)
deriving DecidableEq, Repr

namespace Failure

/-- The operation that failed. -/
def operation : Failure → Operation
  | .reported operation _ | .unparsed operation _ => operation

/-- What is known of the failure. -/
def detail : Failure → String
  | .reported _ account => account
  | .unparsed _ error => error.message

/-- The wording of a failure. -/
def message : Failure → String
  | .reported operation account => operation.label ++ " failed: " ++ account
  | .unparsed operation error => error.message ++ ": " ++ operation.label ++ " failed"

end Failure

/-- Classifies a log that has been read. -/
def classifyLines (operation : Operation) (lines : List LogLine) : Option Failure :=
  let contributions := lines.filterMap LogLine.contribution?
  if contributions.isEmpty then none
  else some (.reported operation ("\n".intercalate contributions))

/-- Classifies the log of an operation. -/
def classify (operation : Operation) (log : List UInt8) : Option Failure :=
  match parseLog (Text.decodeLossy log) with
  | .error e => some (.unparsed operation e)
  | .ok lines => classifyLines operation lines

/-! ### Chains of errors -/

/-- An error with the errors that caused it, outermost first. -/
inductive ErrorChain where
  | failure (failure : Failure)
  | other (message : String)
  | wrapped (message : String) (cause : ErrorChain)
deriving DecidableEq, Repr

/-- Some error of the chain is a failure of the operation. -/
def ErrorChain.reports (operation : Operation) : ErrorChain → Bool
  | .failure f => f.operation == operation
  | .other _ => false
  | .wrapped _ cause => cause.reports operation

end ResourceTypes
