import ResourceTypes.Audit
import ResourceTypes.Build.Error
import ResourceTypes.Declaration.Basic

/-! # The state of a build

A build takes names, emits types and documentation, writes to the registries of the
configuration and reports events. All of that is kept when it fails. -/

namespace ResourceTypes

/-- What a build has done so far. -/
structure BuildState where
  symbols : SymbolTable
  types : List TypeDecl := []
  comments : Comments := .empty
  config : Config
  events : List AuditEvent := []

/-- A computation of a build. -/
abbrev Build := ExceptT BuildError (StateM BuildState)

namespace Build

/-- Wraps an error in the step inside which it arises. -/
def within {α : Type} (step : BuildStep) (x : Build α) : Build α :=
  ExceptT.mk do
    match ← x.run with
    | .ok a => return .ok a
    | .error e => return .error (.context step e)

/-- A pure result as a computation. -/
def ofExcept {α : Type} : Except BuildError α → Build α
  | .ok a => pure a
  | .error e => throw e

/-- Reports an event of the kind that is built. -/
def record (event : AuditEvent) : Build Unit :=
  modify fun s => { s with events := s.events ++ [{ event with kind := s.config.kind }] }

/-- Takes a name. -/
def takeName (name : String) : Build Unit :=
  modify fun s => { s with symbols := s.symbols.insert name }

/-- Documents a field. -/
def document (typeName fieldName text : String) : Build Unit :=
  modify fun s => { s with comments := s.comments.insert (typeName, fieldName) text }

/-- Emits a type. -/
def emit (t : TypeDecl) : Build Unit := modify fun s => { s with types := s.types ++ [t] }

/-- Writes to the registries of the configuration. -/
def configure (change : Config → Config) : Build Unit :=
  modify fun s => { s with config := change s.config }

end Build

end ResourceTypes
