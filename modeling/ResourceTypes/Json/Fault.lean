import ResourceTypes.Decimal.Shortest
import ResourceTypes.Text.Quoted
import ResourceTypes.Text.Utf8

/-! # Faults of JSON texts

A reader stops at the first fault in text order, whether of grammar or of type. A fault has
a cause and a place. Places are kept as the text that was not yet read (`Place`), so that no
reader counts; `Fault.report` turns a place into a line and a column, both counted in bytes of
the whole text. A fault that a record finds in itself has no place of its own: it takes one
from the end of the record that encloses it (`Fault.settle`). -/

namespace ResourceTypes.Json

/-- The value met where another was expected. -/
inductive Found where
  | null
  | boolean (value : Bool)
  | integer (value : Int)
  | floating (value : Decimal)
  | text (value : String)
  | sequence
  | map
  | unitVariant
deriving DecidableEq, Repr

/-- Why a text is refused. -/
inductive Cause where
  | eofValue
  | eofObject
  | eofList
  | eofText
  | expectedValue
  | expectedIdent
  | expectedColon
  | expectedListEnd
  | expectedObjectEnd
  | keyNotText
  | trailingComma
  | trailingCharacters
  | invalidNumber
  | numberOutOfRange
  | invalidEscape
  | loneSurrogate
  | unfinishedSurrogate
  | controlCharacter
  | nestedTooDeep
  | invalidType (found : Found) (expected : String)
  | unknownVariant (name : String) (choices : List String)
  | duplicateField (name : String)
  | missingField (name : String)
  | tooShort (length : Nat) (expected : String) (fields : Nat)
deriving DecidableEq, Repr

/-- Floating point numbers are shown positionally from `10 ^ -5` to below `10 ^ 16`. -/
def shownFloat : Decimal.PointStyle := ⟨-5, 15⟩

/-- A value met, in words. -/
def Found.message : Found → String
  | .null => "null"
  | .boolean value => "boolean `" ++ (if value then "true" else "false") ++ "`"
  | .integer value => "integer `" ++ toString value ++ "`"
  | .floating value => "floating point `" ++ value.text shownFloat ++ "`"
  | .text value => "string " ++ Text.quoted value
  | .sequence => "sequence"
  | .map => "map"
  | .unitVariant => "unit variant"

/-- The wording of a cause. -/
def Cause.message : Cause → String
  | .eofValue => "EOF while parsing a value"
  | .eofObject => "EOF while parsing an object"
  | .eofList => "EOF while parsing a list"
  | .eofText => "EOF while parsing a string"
  | .expectedValue => "expected value"
  | .expectedIdent => "expected ident"
  | .expectedColon => "expected `:`"
  | .expectedListEnd => "expected `,` or `]`"
  | .expectedObjectEnd => "expected `,` or `\x7d`"
  | .keyNotText => "key must be a string"
  | .trailingComma => "trailing comma"
  | .trailingCharacters => "trailing characters"
  | .invalidNumber => "invalid number"
  | .numberOutOfRange => "number out of range"
  | .invalidEscape => "invalid escape"
  | .loneSurrogate => "lone leading surrogate in hex escape"
  | .unfinishedSurrogate => "unexpected end of hex escape"
  | .controlCharacter => "control character (\\u0000-\\u001F) found while parsing a string"
  | .nestedTooDeep => "recursion limit exceeded"
  | .invalidType found expected =>
    "invalid type: " ++ found.message ++ ", expected " ++ expected
  | .unknownVariant name choices =>
    "unknown variant `" ++ name ++ "`, expected one of "
      ++ ", ".intercalate (choices.map fun c => "`" ++ c ++ "`")
  | .duplicateField name => "duplicate field `" ++ name ++ "`"
  | .missingField name => "missing field `" ++ name ++ "`"
  | .tooShort length expected fields =>
    "invalid length " ++ toString length ++ ", expected " ++ expected ++ " with "
      ++ toString fields ++ " elements"

/-! ### Places -/

/-- Where a fault is: `bytes` after the start of `rest`, or not decided yet, with `rest` the
text that the enclosing record has still to read. -/
inductive Place where
  | after (bytes : Nat) (rest : List Char)
  | open (rest : List Char)
deriving DecidableEq, Repr

/-- A cause at its place. -/
structure Fault where
  cause : Cause
  place : Place
deriving DecidableEq, Repr

namespace Fault

/-- A fault in front of `rest`. -/
def here (cause : Cause) (rest : List Char) : Fault := ⟨cause, .after 0 rest⟩

/-- A fault at the first byte of `rest`, which counts. -/
def peek (cause : Cause) (rest : List Char) : Fault := ⟨cause, .after 1 rest⟩

/-- A fault that takes its place from the enclosing record. -/
def unplaced (cause : Cause) (rest : List Char) : Fault := ⟨cause, .open rest⟩

/-- Decides an open place: `finish` gives the text left once the record has been closed as far
as possible. -/
def settle (finish : List Char → List Char) (f : Fault) : Fault :=
  match f.place with
  | .after .. => f
  | .open rest => ⟨f.cause, .after 0 (finish rest)⟩

end Fault

/-- A fault as reported: the line counts from one, the column is the number of bytes since the
last line feed. -/
structure ReadError where
  cause : Cause
  line : Nat
  column : Nat
deriving DecidableEq, Repr

/-- The wording of a reported fault. -/
def ReadError.message (e : ReadError) : String :=
  e.cause.message ++ " at line " ++ toString e.line ++ " column " ++ toString e.column

/-- The line and the column after `offset` bytes of a text, from a given line and column. -/
def positionFrom : List Char → Nat → Nat → Nat → Nat × Nat
  | [], _, line, column => (line, column)
  | c :: rest, offset, line, column =>
    if offset = 0 then (line, column)
    else if c = '\n' then positionFrom rest (offset - 1) (line + 1) 0
    else if offset < c.utf8Size then (line, column + offset)
    else positionFrom rest (offset - c.utf8Size) line (column + c.utf8Size)

/-- The line and the column after `offset` bytes of a text; an offset beyond the end stands for
the end. -/
def position (text : List Char) (offset : Nat) : Nat × Nat := positionFrom text offset 1 0

/-- The fault of a text, with its place counted out. -/
def Fault.report (text : List Char) (f : Fault) : ReadError :=
  let (bytes, rest) := match f.place with
    | .after bytes rest => (bytes, rest)
    | .open rest => (0, rest)
  let (line, column) := position text (Text.byteLength text - Text.byteLength rest + bytes)
  ⟨f.cause, line, column⟩

end ResourceTypes.Json
