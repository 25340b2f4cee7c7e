import ResourceTypes.Toml.Value

/-! # Tables under construction

The tables of a document are built statement by statement, and a table must remember how it
came about: opened by a header, implied by the header of a table inside it, or implied by
a dotted key. `assign` puts a value under a dotted key, `openTable` and `openElement` follow
a header; each refuses to define a thing twice. -/

namespace ResourceTypes.Toml

/-- How a table came about. -/
inductive Origin where
  /-- By its own header. -/
  | header
  /-- By the header of a table inside it. -/
  | implied
  /-- By a dotted key. -/
  | dotted
deriving DecidableEq, Repr

/-- A part of a document under construction; the latest element of an array of tables comes
first. -/
inductive Node where
  | value (value : Value)
  | table (origin : Origin) (entries : List (String × Node))
  | elements (items : List (List (String × Node)))

/-- The entries of a table under construction. -/
abbrev Entries := List (String × Node)

namespace Entries

/-- The part under a key. -/
def find? (entries : Entries) (key : String) : Option Node :=
  (List.find? (fun e => e.1 == key) entries).map Prod.snd

/-- The entries with another part under a key that is present. -/
def replace (entries : Entries) (key : String) (node : Node) : Entries :=
  List.map (fun e => if e.1 == key then (key, node) else e) entries

/-- The entries with a part under a new key. -/
def append (entries : Entries) (key : String) (node : Node) : Entries :=
  List.append entries [(key, node)]

/-- Puts a value under a dotted key. The last table on the way must have been implied by
a dotted key itself, and those before it must not have a header. -/
def assign : List String → Value → Entries → Option Entries
  | [], _, _ => none
  | [key], v, entries =>
    match entries.find? key with
    | none => some (entries.append key (.value v))
    | some _ => none
  | key :: next :: rest, v, entries =>
    match entries.find? key with
    | none => (assign (next :: rest) v []).map fun sub => entries.append key (.table .dotted sub)
    | some (.table .dotted sub) =>
      (assign (next :: rest) v sub).map fun sub => entries.replace key (.table .dotted sub)
    | some (.table .implied sub) =>
      if rest.isEmpty then none
      else (assign (next :: rest) v sub).map fun sub => entries.replace key (.table .implied sub)
    | _ => none

/-- Goes down to the table of a path through tables and latest elements, and changes it. -/
def update (change : Entries → Option Entries) : List String → Entries → Option Entries
  | [], entries => change entries
  | key :: rest, entries =>
    match entries.find? key with
    | none =>
      (update change rest []).map fun sub => entries.append key (.table .implied sub)
    | some (.table origin sub) =>
      (update change rest sub).map fun sub => entries.replace key (.table origin sub)
    | some (.elements (latest :: older)) =>
      (update change rest latest).map fun sub => entries.replace key (.elements (sub :: older))
    | _ => none

/-- Opens the table under a key for its header. -/
def openTable (key : String) (entries : Entries) : Option Entries :=
  match entries.find? key with
  | none => some (entries.append key (.table .header []))
  | some (.table .implied sub) => some (entries.replace key (.table .header sub))
  | _ => none

/-- Opens a further element of the array of tables under a key. -/
def openElement (key : String) (entries : Entries) : Option Entries :=
  match entries.find? key with
  | none => some (entries.append key (.elements [[]]))
  | some (.elements items) => some (entries.replace key (.elements ([] :: items)))
  | _ => none

end Entries

/-! ### Finished values -/

mutual

/-- The value of a finished part. -/
def Node.finish : Node → Value
  | .value v => v
  | .table _ entries => .table (finishEntries entries)
  | .elements items => .array (finishElements items).reverse

/-- The values of finished entries. -/
def finishEntries : List (String × Node) → List (String × Value)
  | [] => []
  | (key, node) :: rest => (key, node.finish) :: finishEntries rest

/-- The values of finished elements. -/
def finishElements : List (List (String × Node)) → List Value
  | [] => []
  | entries :: rest => .table (finishEntries entries) :: finishElements rest

end

end ResourceTypes.Toml
