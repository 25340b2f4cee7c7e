import ResourceTypes.Toml.Scalar
import ResourceTypes.Toml.Table
import ResourceTypes.Toml.Text

/-! # TOML documents

A document is a list of lines: headers, assignments and empty ones. `parse?` gives its
entries, or nothing if a line is malformed or defines a thing twice. -/

namespace ResourceTypes.Toml

/-! ### Keys -/

/-- Characters of a key without quotes. -/
def isBare (c : Char) : Bool := c.isAlphanum || c == '_' || c == '-'

/-- Reads one key. -/
def readKey (s : List Char) : Option (String × List Char) :=
  match s with
  | '"' :: _ | '\'' :: _ => (readShort s).map fun r => (String.ofList r.1, r.2)
  | _ =>
    let bare := s.takeWhile isBare
    if bare.isEmpty then none else some (String.ofList bare, s.dropWhile isBare)

/-- Reads a dotted key and the blanks after it. -/
def readKeys : Nat → List Char → Option (List String × List Char)
  | 0, _ => none
  | fuel + 1, s => do
    let (key, rest) ← readKey (skipSpace s)
    match skipSpace rest with
    | '.' :: rest =>
      let (keys, rest) ← readKeys fuel rest
      return (key :: keys, rest)
    | rest => return ([key], rest)

/-! ### Values -/

/-- Characters of a scalar other than a text. -/
def isScalarChar (c : Char) : Bool :=
  c.isAlphanum || c == '+' || c == '-' || c == '_' || c == '.' || c == ':'

/-- Reads a scalar other than a text; a space may part a date from a time. -/
def readScalar (s : List Char) : Option (Value × List Char) := do
  let token := s.takeWhile isScalarChar
  let rest := s.dropWhile isScalarChar
  let (token, rest) := match afterDate? token, rest with
    | some [], ' ' :: d :: more =>
      if d.isDigit then
        (token ++ ' ' :: (d :: more).takeWhile isScalarChar, (d :: more).dropWhile isScalarChar)
      else (token, rest)
    | _, _ => (token, rest)
  let kind ← Scalar.ofToken? token
  return (.scalar kind, rest)

mutual

/-- Reads a value. -/
def readValue : Nat → List Char → Option (Value × List Char)
  | 0, _ => none
  | fuel + 1, s =>
    match s with
    | '"' :: _ | '\'' :: _ => (readText s).map fun r => (.text (String.ofList r.1), r.2)
    | '[' :: rest => (readItems fuel [] rest).map fun r => (.array r.1, r.2)
    | '\x7b' :: rest => do
      let (entries, rest) ← readInline fuel true [] rest
      return (.table (finishEntries entries), rest)
    | _ => readScalar s

/-- Reads the items of an array up to its closing bracket; `done` holds the earlier items
reversed. -/
def readItems : Nat → List Value → List Char → Option (List Value × List Char)
  | 0, _, _ => none
  | fuel + 1, done, s => do
    match ← skipTrivia false s with
    | ']' :: rest => return (done.reverse, rest)
    | s =>
      let (v, rest) ← readValue fuel s
      match ← skipTrivia false rest with
      | ',' :: rest => readItems fuel (v :: done) rest
      | ']' :: rest => return ((v :: done).reverse, rest)
      | _ => none

/-- Reads the entries of an inline table up to its closing bracket; only an empty table may
close at the start. -/
def readInline : Nat → Bool → Entries → List Char → Option (Entries × List Char)
  | 0, _, _, _ => none
  | fuel + 1, first, entries, s => do
    match skipSpace s with
    | '\x7d' :: rest => if first then return (entries, rest) else none
    | s =>
      let (keys, rest) ← readKeys s.length s
      match rest with
      | '=' :: rest =>
        let (v, rest) ← readValue fuel (skipSpace rest)
        let entries ← entries.assign keys v
        match skipSpace rest with
        | ',' :: rest => readInline fuel false entries rest
        | '\x7d' :: rest => return (entries, rest)
        | _ => none
      | _ => none

end

/-! ### Lines -/

/-- A document under construction: its entries and the path of the table that takes the next
assignment. -/
structure Draft where
  entries : Entries := []
  current : List String := []

/-- Follows a header of keys that end in `last`. -/
def Draft.header (enter : String → Entries → Option Entries) (keys : List String)
    (d : Draft) : Option Draft := do
  let last ← keys.getLast?
  let entries ← d.entries.update (enter last) keys.dropLast
  return ⟨entries, keys⟩

/-- Reads one line that is not empty, and gives the rest of the text from its end on. -/
def readLine (fuel : Nat) (d : Draft) (s : List Char) : Option (Draft × List Char) := do
  match s with
  | '[' :: '[' :: rest =>
    let (keys, rest) ← readKeys fuel rest
    match rest with
    | ']' :: ']' :: rest => return (← d.header Entries.openElement keys, rest)
    | _ => none
  | '[' :: rest =>
    let (keys, rest) ← readKeys fuel rest
    match rest with
    | ']' :: rest => return (← d.header Entries.openTable keys, rest)
    | _ => none
  | _ =>
    let (keys, rest) ← readKeys fuel s
    match rest with
    | '=' :: rest =>
      let (v, rest) ← readValue fuel (skipSpace rest)
      let entries ← d.entries.update (Entries.assign keys v) d.current
      return (⟨entries, d.current⟩, rest)
    | _ => none

/-- Reads lines to the end of the text. -/
def readLines (total : Nat) : Nat → Draft → List Char → Option Draft
  | 0, _, _ => none
  | fuel + 1, d, s =>
    match skipTrivia false s with
    | none => none
    | some [] => some d
    | some s =>
      match readLine total d s with
      | none => none
      | some (d, rest) =>
        match readLineEnd rest with
        | none => none
        | some rest => readLines total fuel d rest

/-- The entries of a document; a byte order mark may lead it. -/
def parse? (s : List Char) : Option (List (String × Value)) :=
  let s := match s with
    | '\uFEFF' :: rest => rest
    | _ => s
  let fuel := s.length + 1
  (readLines fuel fuel {} s).map fun d => finishEntries d.entries

end ResourceTypes.Toml
