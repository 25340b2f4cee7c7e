/-! # JSON values and their texts

Values are printed on one line (`compact`) or with an entry on each line, two spaces further
in for each container (`pretty`). A text is printed with the escapes that JSON demands and
with nothing else escaped. -/

namespace ResourceTypes

/-- A JSON value; the entries of an object stand in the order in which they are printed. -/
inductive Json where
  | null
  | boolean (value : Bool)
  | number (value : Nat)
  | text (value : String)
  | list (items : List Json)
  | object (entries : List (String × Json))

namespace Json

/-- A text, or `null`. -/
def ofText? : Option String → Json
  | none => .null
  | some s => .text s

/-- A number, or `null`. -/
def ofNumber? : Option Nat → Json
  | none => .null
  | some n => .number n

/-! ### Texts -/

/-- A hexadecimal digit. -/
def hexDigit (n : Nat) : Char := Nat.digitChar (n % 16)

/-- One character of a printed text. -/
def escapeChar (c : Char) : List Char :=
  if c = '"' then ['\\', '"']
  else if c = '\\' then ['\\', '\\']
  else if c = '\x08' then ['\\', 'b']
  else if c = '\x0c' then ['\\', 'f']
  else if c = '\n' then ['\\', 'n']
  else if c = '\r' then ['\\', 'r']
  else if c = '\t' then ['\\', 't']
  else if c.toNat < 0x20 then
    ['\\', 'u', '0', '0', hexDigit (c.toNat / 16), hexDigit c.toNat]
  else [c]

/-- A printed text. -/
def printText (s : String) : List Char := '"' :: s.toList.flatMap escapeChar ++ ['"']

/-! ### On one line -/

mutual

/-- A value on one line. -/
def print : Json → List Char
  | .null => "null".toList
  | .boolean true => "true".toList
  | .boolean false => "false".toList
  | .number n => Nat.toDigits 10 n
  | .text s => printText s
  | .list items => '[' :: printItems items ++ [']']
  | .object entries => '\x7b' :: printEntries entries ++ ['\x7d']

/-- Items with commas between them. -/
def printItems : List Json → List Char
  | [] => []
  | [item] => item.print
  | item :: rest => item.print ++ ',' :: printItems rest

/-- Entries with commas between them. -/
def printEntries : List (String × Json) → List Char
  | [] => []
  | [(key, value)] => printText key ++ ':' :: value.print
  | (key, value) :: rest => printText key ++ ':' :: value.print ++ ',' :: printEntries rest

end

/-- A value on one line. -/
def compact (v : Json) : String := String.ofList v.print

/-! ### On many lines -/

/-- The start of a line that is `depth` containers deep. -/
def newLine (depth : Nat) : List Char := '\n' :: List.replicate (2 * depth) ' '

mutual

/-- A value on many lines, the first of which is `depth` containers deep. -/
def layout (depth : Nat) : Json → List Char
  | .list [] => ['[', ']']
  | .list (item :: rest) =>
    '[' :: newLine (depth + 1) ++ layout (depth + 1) item ++ layoutItems (depth + 1) rest
      ++ newLine depth ++ [']']
  | .object [] => ['\x7b', '\x7d']
  | .object ((key, value) :: rest) =>
    '\x7b' :: newLine (depth + 1) ++ printText key ++ ':' :: ' ' :: layout (depth + 1) value
      ++ layoutEntries (depth + 1) rest ++ newLine depth ++ ['\x7d']
  | .null => print .null
  | .boolean b => print (.boolean b)
  | .number n => print (.number n)
  | .text s => print (.text s)

/-- Further items, each after a comma and on a line of its own. -/
def layoutItems (depth : Nat) : List Json → List Char
  | [] => []
  | item :: rest => ',' :: newLine depth ++ layout depth item ++ layoutItems depth rest

/-- Further entries, each after a comma and on a line of its own. -/
def layoutEntries (depth : Nat) : List (String × Json) → List Char
  | [] => []
  | (key, value) :: rest =>
    ',' :: newLine depth ++ printText key ++ ':' :: ' ' :: layout depth value
      ++ layoutEntries depth rest

end

/-- A value on many lines. -/
def pretty (v : Json) : String := String.ofList (layout 0 v)

end Json

end ResourceTypes
