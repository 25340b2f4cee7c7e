import ResourceTypes.Json.Value

/-! # Audit events

A build reports what it decides as a list of events. An event is printed as one line of JSON
with a time stamp, which is the only thing about it that the build does not decide. -/

namespace ResourceTypes

/-- What an event reports. -/
inductive EventKind where
  | typeGenerated
  | sensitiveField
  | lateInitIgnore
  | referenceAttached
  | buildCompleted
  | buildFailed
deriving DecidableEq, Repr

/-- The name of a kind of event. -/
def EventKind.label : EventKind → String
  | .typeGenerated => "type_generated"
  | .sensitiveField => "sensitive_field"
  | .lateInitIgnore => "late_init_ignore"
  | .referenceAttached => "reference_attached"
  | .buildCompleted => "build_completed"
  | .buildFailed => "build_failed"

/-- An event of the build of a kind. -/
structure AuditEvent where
  event : EventKind
  kind : String := ""
  typeName : Option String := none
  sourcePath : Option String := none
  targetPath : Option String := none
  fieldCount : Option Nat := none
  error : Option String := none
deriving DecidableEq, Repr

namespace AuditEvent

/-- An event as JSON; details that do not apply are `null`. -/
def toJson (timestamp : Nat) (e : AuditEvent) : Json :=
  .object
    [("event", .text e.event.label),
     ("timestamp_ms", .number timestamp),
     ("kind", .text e.kind),
     ("type_name", .ofText? e.typeName),
     ("source_path", .ofText? e.sourcePath),
     ("target_path", .ofText? e.targetPath),
     ("field_count", .ofNumber? e.fieldCount),
     ("error", .ofText? e.error)]

/-- The line of an event in a log. -/
def line (timestamp : Nat) (e : AuditEvent) : String := (e.toJson timestamp).compact ++ "\n"

/-- The lines of events in order. -/
def lines (timestamp : Nat) (events : List AuditEvent) : String :=
  String.join (events.map (line timestamp))

end AuditEvent

end ResourceTypes
