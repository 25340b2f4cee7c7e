import ResourceTypes.Build.Site
import ResourceTypes.Build.State

/-! # Building types

Each resource of a schema, the root and every nested one, gives two types: `Parameters` for
what can be set and `Observation` for what is only observed. A resource takes the names of its
two types before its attributes are visited and emits the types after them, so that types of
inner resources come first.

An attribute is resolved to variants: a scalar to a pointer, a collection to a list or a map of
its element, and a collection of nested resources to a variant for each of their two types,
unless the attribute is only observed. Each variant is placed as a field of one of the two types.
`build` runs a schema and gives the outcome with the configuration and the events. -/

namespace ResourceTypes

/-- The depth that no nested resource or element may reach. -/
def maxDepth : Nat := 64

/-- The fields collected for the two types of a resource. -/
structure Level where
  parameters : String
  observation : String
  parameterFields : List Field := []
  observationFields : List Field := []
deriving DecidableEq, Repr

namespace Level

/-- The level with further fields that can be set. -/
def addParameters (l : Level) (fields : List Field) : Level :=
  { l with parameterFields := l.parameterFields ++ fields }

/-- The level with a further field that is observed. -/
def addObservation (l : Level) (f : Field) : Level :=
  { l with observationFields := l.observationFields ++ [f] }

end Level

namespace Build

/-! ### Registries -/

/-- Registers the target of a sensitive field. -/
def registerSensitive (l : Location) (target : String) : Build Unit := do
  configure fun c => c.addSensitive l.source.spelled target
  record
    { event := .sensitiveField, sourcePath := some l.source.spelled, targetPath := some target }

/-- Registers the canonical path of an ignored field, unless it is registered already. -/
def registerIgnored (l : Location) : Build Unit := do
  let c := (← get).config
  if c.lateInitializer.ignoresSource l.source && !c.lateInitializer.ignoresCanonical l.canonical
  then do
    configure fun c => c.addCanonical l.canonical
    record
      { event := .lateInitIgnore, sourcePath := some l.source.spelled,
        targetPath := some l.canonical.spelled }

/-! ### Names -/

/-- A free name for a suffix along a chain of names. -/
def allocate (suffix : String) (chain : List String) : Build String := do
  match (← get).symbols.allocate suffix chain with
  | .ok name => return name
  | .error e => throw (.ofAllocation e)

/-- Takes the names of the two types of a resource. -/
def openLevel (l : Location) : Build Level := do
  let parameters ← within (.parametersName l.label) (allocate "Parameters" l.names)
  let observation ← within (.observationName l.label) (allocate "Observation" l.names)
  takeName parameters
  takeName observation
  return { parameters, observation }

/-- A type that has been emitted: its index and its name. -/
structure TypeRef where
  index : Nat
  name : String
deriving DecidableEq, Repr

/-- Emits one type of a resource. -/
def emitType (l : Location) (name : String) (fields : List Field) : Build TypeRef := do
  record
    { event := .typeGenerated, typeName := some name, sourcePath := some l.source.spelled,
      fieldCount := some fields.length }
  let index := (← get).types.length
  emit ⟨name, fields⟩
  return ⟨index, name⟩

/-- Emits the two types of a resource. -/
def closeLevel (l : Location) (level : Level) : Build (TypeRef × TypeRef) := do
  let parameters ← emitType l level.parameters level.parameterFields
  let observation ← emitType l level.observation level.observationFields
  return (parameters, observation)

/-! ### Fields -/

/-- Documents companions. -/
def documentCompanions (typeName : String) : List Field → Build Unit
  | [] => pure ()
  | f :: rest => do
    document typeName f.name (Comment.markerOnly false).render
    documentCompanions typeName rest

/-- Places a field that is observed. -/
def placeObservation (s : Site) (f : Field) (level : Level) : Build Level := do
  document level.observation f.name s.comment.render
  return level.addObservation f

/-- Places a field that can be set, with the companions of its reference. -/
def placeParameter (s : Site) (f : Field) (level : Level) : Build Level := do
  document level.parameters f.name s.parameterComment.render
  match s.reference with
  | none => return level.addParameters [f]
  | some r =>
    documentCompanions level.parameters (companions f r)
    record
      { event := .referenceAttached, typeName := some level.parameters,
        sourcePath := some s.location.source.spelled }
    return level.addParameters (f :: companions f r)

/-- Registers an attribute that can be set, if it is sensitive. -/
def registerSettable (s : Site) : Build Unit :=
  if s.sensitive then registerSensitive s.location (parameterTarget s.location.target)
  else pure ()

/-- Places one variant of an attribute. A sensitive value is registered, and dropped where it
is only observed. -/
def placeVariant (s : Site) (v : Variant) (level : Level) : Build Level := do
  if v.isObservation then
    if s.sensitive then
      registerSensitive s.location (observationTarget s.location.target)
      return level
    else placeObservation s (s.tagged true (s.plain v.type)) level
  else
    let base ← ofExcept (s.base v.type)
    registerSettable s
    placeParameter s (s.tagged false base) level

/-- Places the variants of an attribute in order. -/
def placeVariants (s : Site) : List Variant → Level → Build Level
  | [], level => return level
  | v :: rest, level => do
    let level ← placeVariant s v level
    placeVariants s rest level

/-! ### Attributes -/

/-- The type of a collection of the given kind. -/
def collectionOf (kind : ValueKind) (inner : ValueType) : ValueType :=
  if kind = .map then .map inner else .list inner

/-- The documentation of an attribute. -/
def commentOf (l : Location) (description : String) : Build Comment :=
  match Comment.parse description with
  | .ok c => return c
  | .error e => throw (.context (.field l.source) (.comment description e))

/-- The site of an attribute that has been resolved. -/
def siteOf (name : FieldName) (l : Location) (traits : Traits) (comment : Comment) :
    Build Site := do
  let reference := (← get).config.referenceFor? l.source
  return ⟨name, l, comment, reference, traits.optional || reference.isSome, traits.sensitive⟩

mutual

/-- Builds the two types of a resource. -/
def resource : Resource → Location → Nat → Build (TypeRef × TypeRef)
  | .mk attributes, l, depth =>
    if maxDepth ≤ depth then throw (.depthLimit maxDepth)
    else do
      let level ← openLevel l
      let level ← fields attributes l depth level
      closeLevel l level

/-- Visits the attributes of a resource in order. -/
def fields : List (String × Attribute) → Location → Nat → Level → Build Level
  | [], _, _, level => return level
  | (snake, a) :: rest, parent, depth, level => do
    let name := FieldName.ofSnake snake
    let l := parent.field name
    let comment ← commentOf l a.traits.description
    registerIgnored l
    let variants ← within (.fieldType l.source) (schema a l depth)
    let site ← siteOf name l a.traits comment
    let level ← within (.field l.source) (placeVariants site variants level)
    fields rest parent depth level

/-- Resolves an attribute to its variants. -/
def schema : Attribute → Location → Nat → Build (List Variant)
  | .mk traits element, l, depth =>
    if maxDepth ≤ depth then throw (.depthLimit maxDepth)
    else match Primitive.ofKind? traits.kind with
      | some p => return [⟨.pointer (.primitive p), traits.isObservation⟩]
      | none =>
        if traits.kind.isCollection then do
          let variants ← elementVariants element traits.isObservation l depth
          return variants.map fun v => { v with type := collectionOf traits.kind v.type }
        else throw (.invalidKind traits.kind)

/-- Resolves the element of a collection to the variants of the element. -/
def elementVariants : Element → Bool → Location → Nat → Build (List Variant)
  | .unset, isObservation, _, _ => return [⟨.primitive .string, isObservation⟩]
  | .primitive kind, isObservation, l, _ =>
    match Primitive.ofKind? kind with
    | some p => return [⟨.primitive p, isObservation⟩]
    | none => throw (.unsupportedElement l.label)
  | .schema inner, isObservation, l, depth => do
    let variants ← within (.elementSchema l.label) (schema inner l.element (depth + 1))
    return variants.map fun v => { v with isObservation }
  | .resource inner, isObservation, l, depth => do
    let (parameters, observation) ←
      within (.elementResource l.label) (resource inner l.element (depth + 1))
    if isObservation then return [⟨.named observation.name, true⟩]
    else return [⟨.named observation.name, true⟩, ⟨.named parameters.name, false⟩]

end

/-- Builds the types of a whole schema. -/
def root (schema : Resource) : Build (TypeRef × TypeRef) := do
  let kind := (← get).config.kind
  within (.types kind) (resource schema (.root kind) 0)

end Build

/-! ### Running a build -/

/-- The outcome of a build with the configuration and the events that it leaves. -/
structure BuildResult where
  outcome : Except BuildError Generated
  config : Config
  events : List AuditEvent

/-- The last event of a build. -/
def lastEvent (kind : String) (state : BuildState) : Except BuildError Generated → AuditEvent
  | .ok _ => { event := .buildCompleted, kind, fieldCount := some state.types.length }
  | .error e => { event := .buildFailed, kind, error := some e.message }

/-- Builds the types of a schema for a configuration, where the names of a table are taken. -/
def build (schema : Resource) (config : Config) (symbols : SymbolTable) : BuildResult :=
  let (refs, state) := (Build.root schema).run.run { symbols, config }
  let outcome := refs.map fun r => ⟨state.types, state.comments, r.1.index, r.2.index⟩
  ⟨outcome, state.config, state.events ++ [lastEvent config.kind state outcome]⟩

end ResourceTypes
