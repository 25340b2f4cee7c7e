import ResourceTypes.Json.Skip

/-! # Reading JSON into types

A reader takes a text to a value of its type and the text after it. `Reader.record`
reads a type with named fields, written as an object or as an array of its fields in order;
`Reader.entries` reads an object with keys of its own; `Reader.choice` reads one of several
named alternatives. Each
container that is read into a type uses up one level of nesting: `nested` says whether one more
may be opened. `fuel` bounds the loops; the length of the text is enough. -/

namespace ResourceTypes.Json

/-- Readers of values of a type. -/
abbrev Reader (α : Type) := List Char → Except Fault (α × List Char)

/-- The reader inside a container that cannot be opened. -/
def Reader.closed {α : Type} : Reader α := fun s => .error (.peek .nestedTooDeep s)

/-- The value that stands where another was expected, or the fault found while reading it. -/
def readFound (s : List Char) : Except Fault (Found × List Char) :=
  match s with
  | [] => .error (.peek .eofValue [])
  | c :: rest =>
    if c = 'n' then (readWord ['u', 'l', 'l'] rest).map fun r => (.null, r)
    else if c = 't' then (readWord ['r', 'u', 'e'] rest).map fun r => (.boolean true, r)
    else if c = 'f' then (readWord ['a', 'l', 's', 'e'] rest).map fun r => (.boolean false, r)
    else if c = '"' then (readText rest).map fun r => (.text r.1, r.2)
    else if c = '[' then .ok (.sequence, s)
    else if c = '\x7b' then .ok (.map, s)
    else if c = '-' then readNumber true rest
    else if c.isDigit then readNumber false s
    else .error (.peek .expectedValue s)

/-- Refuses the value in front because another type was expected. -/
def refuse {α : Type} (expected : String) (s : List Char) : Except Fault α :=
  match readFound s with
  | .error f => .error f
  | .ok (found, rest) => .error (.here (.invalidType found expected) rest)

/-! ### Scalars -/

/-- Reads a text. -/
def Reader.text : Reader String := fun s =>
  match skipSpace s with
  | '"' :: rest => readText rest
  | s => refuse "a string" s

/-- Reads a truth value. -/
def Reader.boolean : Reader Bool := fun s =>
  match readFound (skipSpace s) with
  | .ok (.boolean b, rest) => .ok (b, rest)
  | _ => refuse "a boolean" (skipSpace s)

/-- Reads `null`. -/
def Reader.unit : Reader Unit := fun s =>
  match readFound (skipSpace s) with
  | .ok (.null, rest) => .ok ((), rest)
  | _ => refuse "unit" (skipSpace s)

/-- Reads `null` or a value. -/
def Reader.optional {α : Type} (read : Reader α) : Reader (Option α) := fun s =>
  match skipSpace s with
  | 'n' :: rest => (readWord ['u', 'l', 'l'] rest).map fun r => (none, r)
  | s => (read s).map fun r => (some r.1, r.2)

/-! ### Walking through containers -/

/-- The next key of an object, with the text after its closing quote, or `none` at the closing
bracket. -/
def nextKey (first : Bool) (s : List Char) : Except Fault (Option (String × List Char)) :=
  let key : List Char → Except Fault (Option (String × List Char)) := fun rest =>
    (readText rest).map some
  match skipSpace s with
  | [] => .error (.peek .eofObject [])
  | c :: rest =>
    if c = '\x7d' then .ok none
    else if first then if c = '"' then key rest else .error (.peek .keyNotText (c :: rest))
    else if c = ',' then
      match skipSpace rest with
      | [] => .error (.peek .eofValue [])
      | d :: rest =>
        if d = '"' then key rest
        else if d = '\x7d' then .error (.peek .trailingComma (d :: rest))
        else .error (.peek .keyNotText (d :: rest))
    else .error (.peek .expectedObjectEnd (c :: rest))

/-- The text from the next element of an array on, or `none` at the closing bracket. -/
def nextElement (first : Bool) (s : List Char) : Except Fault (Option (List Char)) :=
  match skipSpace s with
  | [] => .error (.peek .eofList [])
  | c :: rest =>
    if c = ']' then .ok none
    else if first then .ok (some (c :: rest))
    else if c = ',' then
      match skipSpace rest with
      | [] => .error (.peek .eofValue [])
      | d :: rest =>
        if d = ']' then .error (.peek .trailingComma (d :: rest)) else .ok (some (d :: rest))
    else .error (.peek .expectedListEnd (c :: rest))

/-- The closing bracket of an object whose entries have all been read. -/
def closeObject (s : List Char) : Except Fault (List Char) :=
  match skipSpace s with
  | [] => .error (.peek .eofObject [])
  | c :: rest =>
    if c = '\x7d' then .ok rest
    else if c = ',' then .error (.peek .trailingComma (c :: rest))
    else .error (.peek .trailingCharacters (c :: rest))

/-- The closing bracket of an array after the last element that was asked for. -/
def closeArray (s : List Char) : Except Fault (List Char) :=
  match skipSpace s with
  | [] => .error (.peek .eofList [])
  | c :: rest =>
    if c = ']' then .ok rest
    else if c = ',' then
      match skipSpace rest with
      | ']' :: more => .error (.peek .trailingComma (']' :: more))
      | rest => .error (.peek .trailingCharacters rest)
    else .error (.peek .trailingCharacters (c :: rest))

/-- The text left when an object is closed as far as possible. -/
def afterObject (s : List Char) : List Char :=
  match skipSpace s with
  | '\x7d' :: rest => rest
  | s => s

/-- The text left when an array is closed as far as possible. -/
def afterArray (s : List Char) : List Char :=
  match skipSpace s with
  | ']' :: rest => rest
  | ',' :: rest => skipSpace rest
  | s => s

/-- Settles the place of a fault by closing the container around it. -/
def settled {α : Type} (finish : List Char → List Char) : Except Fault α → Except Fault α
  | .ok a => .ok a
  | .error f => .error (f.settle finish)

/-! ### Records -/

/-- A field of a record: reading it updates what has been read of the record. -/
structure Slot (σ : Type) where
  key : String
  read : σ → Reader σ

/-- How a record is read: its name in messages, its fields in order, the record with nothing
read, and how it is completed, where a missing field is given by its name. -/
structure Shape (σ α : Type) where
  title : String
  slots : List (Slot σ)
  start : σ
  complete : σ → Except String α

/-- Reads the entries of an object into a record; fields already read are `seen`. -/
def recordEntries {σ : Type} (total : Nat) (slots : List (Slot σ)) :
    Nat → Bool → List String → σ → Reader σ
  | 0, _, _, _, s => .error (.here .eofObject s)
  | fuel + 1, first, seen, state, s =>
    match nextKey first s with
    | .error f => .error f
    | .ok none => .ok (state, s)
    | .ok (some (key, rest)) =>
      match slots.find? fun slot => slot.key == key with
      | none =>
        match readColon rest with
        | .error f => .error f
        | .ok rest =>
          match skipValue total rest with
          | .error f => .error f
          | .ok rest => recordEntries total slots fuel false seen state rest
      | some slot =>
        if seen.contains key then .error (.unplaced (.duplicateField key) rest)
        else
          match readColon rest with
          | .error f => .error f
          | .ok rest =>
            match slot.read state rest with
            | .error f => .error f
            | .ok (state, rest) => recordEntries total slots fuel false (key :: seen) state rest

/-- Reads the elements of an array into the fields of a record in order, as far as they go. -/
def recordElements {σ : Type} : List (Slot σ) → Bool → σ → Reader σ
  | [], _, state, s => .ok (state, s)
  | slot :: slots, first, state, s =>
    match nextElement first s with
    | .error f => .error f
    | .ok none => .ok (state, s)
    | .ok (some rest) =>
      match slot.read state rest with
      | .error f => .error f
      | .ok (state, rest) => recordElements slots false state rest

/-- The position of a field among the fields of a record. -/
def fieldIndex {σ : Type} (slots : List (Slot σ)) (key : String) : Nat :=
  (slots.takeWhile fun slot => slot.key != key).length

/-- Completes a record read from an object. -/
def completeObject {σ α : Type} (shape : Shape σ α) (state : σ) (rest : List Char) :
    Except Fault (α × List Char) :=
  match shape.complete state with
  | .ok a => .ok (a, rest)
  | .error name => .error (.unplaced (.missingField name) rest)

/-- Completes a record read from an array. -/
def completeArray {σ α : Type} (shape : Shape σ α) (state : σ) (rest : List Char) :
    Except Fault (α × List Char) :=
  match shape.complete state with
  | .ok a => .ok (a, rest)
  | .error name =>
    .error (.unplaced
      (.tooShort (fieldIndex shape.slots name) shape.title shape.slots.length) rest)

/-- Reads a record after the opening bracket of an object. -/
def recordObject {σ α : Type} (fuel : Nat) (shape : Shape σ α) : Reader α := fun s =>
  settled afterObject <| do
    let (state, rest) ← recordEntries fuel shape.slots fuel true [] shape.start s
    let (a, rest) ← completeObject shape state rest
    let rest ← closeObject rest
    return (a, rest)

/-- Reads a record after the opening bracket of an array. -/
def recordArray {σ α : Type} (shape : Shape σ α) : Reader α := fun s =>
  settled afterArray <| do
    let (state, rest) ← recordElements shape.slots true shape.start s
    let (a, rest) ← completeArray shape state rest
    let rest ← closeArray rest
    return (a, rest)

/-- Reads a record. -/
def Reader.record {σ α : Type} (fuel : Nat) (nested : Bool) (shape : Shape σ α) :
    Reader α := fun s =>
  match skipSpace s with
  | '\x7b' :: rest =>
    if nested then recordObject fuel shape rest
    else .error (.peek .nestedTooDeep ('\x7b' :: rest))
  | '[' :: rest =>
    if nested then recordArray shape rest else .error (.peek .nestedTooDeep ('[' :: rest))
  | s => refuse shape.title s

/-! ### Entries with free keys -/

/-- Reads the entries of an object; `add` puts each into what has been read. -/
def entriesLoop {σ α : Type} (read : Reader α) (add : σ → String → α → σ) :
    Nat → Bool → σ → Reader σ
  | 0, _, _, s => .error (.here .eofObject s)
  | fuel + 1, first, state, s =>
    match nextKey first s with
    | .error f => .error f
    | .ok none => .ok (state, s)
    | .ok (some (key, rest)) =>
      match readColon rest with
      | .error f => .error f
      | .ok rest =>
        match read rest with
        | .error f => .error f
        | .ok (a, rest) => entriesLoop read add fuel false (add state key a) rest

/-- Reads an object with free keys. -/
def Reader.entries {σ α : Type} (fuel : Nat) (nested : Bool) (read : Reader α)
    (add : σ → String → α → σ) (start : σ) : Reader σ := fun s =>
  match skipSpace s with
  | '\x7b' :: rest =>
    if nested then
      settled afterObject <| do
        let (state, rest) ← entriesLoop read add fuel true start rest
        let rest ← closeObject rest
        return (state, rest)
    else .error (.peek .nestedTooDeep ('\x7b' :: rest))
  | s => refuse "a map" s

/-! ### Alternatives -/

/-- A named alternative: its value when the name stands alone, and how its content is read
when the name is the key of an object. -/
structure Choice (α : Type) where
  name : String
  bare : Option α
  content : Reader α

/-- The alternative of the given name, whose closing quote `rest` follows. -/
def findChoice {α : Type} (choices : List (Choice α)) (name : String) (rest : List Char) :
    Except Fault (Choice α) :=
  match choices.find? fun c => c.name == name with
  | some c => .ok c
  | none => .error (.here (.unknownVariant name (choices.map Choice.name)) rest)

/-- The name of an alternative after the opening bracket of an object. -/
def choiceKey (s : List Char) : Except Fault (String × List Char) :=
  match skipSpace s with
  | [] => .error (.peek .eofValue [])
  | c :: rest =>
    if c = '"' then readText rest
    else if c = '\x7d' then .error (.peek .expectedValue (c :: rest))
    else .error (.peek .keyNotText (c :: rest))

/-- The closing bracket after the content of an alternative. -/
def closeChoice (s : List Char) : Except Fault (List Char) :=
  match skipSpace s with
  | [] => .error (.here .eofObject [])
  | c :: rest => if c = '\x7d' then .ok rest else .error (.here .expectedValue (c :: rest))

/-- Reads an alternative after the opening bracket of an object. -/
def choiceObject {α : Type} (choices : List (Choice α)) : Reader α := fun s => do
  let (name, rest) ← choiceKey s
  let c ← findChoice choices name rest
  let rest ← readColon rest
  let (a, rest) ← c.content rest
  let rest ← closeChoice rest
  return (a, rest)

/-- Reads an alternative after an opening quote. -/
def choiceName {α : Type} (choices : List (Choice α)) : Reader α := fun s => do
  let (name, rest) ← readText s
  let c ← findChoice choices name rest
  match c.bare with
  | some a => return (a, rest)
  | none => throw (.unplaced (.invalidType .unitVariant "newtype variant") rest)

/-- Reads one of several alternatives. -/
def Reader.choice {α : Type} (nested : Bool) (choices : List (Choice α)) : Reader α := fun s =>
  match skipSpace s with
  | [] => .error (.peek .eofValue [])
  | c :: rest =>
    if c = '\x7b' then
      if nested then choiceObject choices rest else .error (.peek .nestedTooDeep (c :: rest))
    else if c = '"' then choiceName choices rest
    else .error (.peek .expectedValue (c :: rest))

/-! ### Whole texts -/

/-- Reads a whole text, after which only blanks may follow. -/
def readAll {α : Type} (read : Reader α) (s : List Char) : Except ReadError α :=
  match read s with
  | .error f => .error (f.report s)
  | .ok (a, rest) =>
    match skipSpace rest with
    | [] => .ok a
    | c :: rest => .error (Fault.report s (.peek .trailingCharacters (c :: rest)))

end ResourceTypes.Json
