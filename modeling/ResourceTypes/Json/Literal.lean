import ResourceTypes.Json.Fault

/-! # Tokens of JSON texts

Blanks, words, texts and numbers. Each reader takes the text from the token on and gives the
value with the text after it, or the fault. A text that is wanted (`readText`) is decoded and
its surrogates are checked; one that is passed over (`skipText`) is only delimited. -/

namespace ResourceTypes.Json

/-- The blanks between tokens. -/
def isSpace (c : Char) : Bool := c == ' ' || c == '\n' || c == '\t' || c == '\r'

/-- The text from the next token on. -/
def skipSpace (s : List Char) : List Char := s.dropWhile isSpace

/-- Reads the letters of a word one by one. -/
def readWord : List Char → List Char → Except Fault (List Char)
  | [], s => .ok s
  | _ :: _, [] => .error (.here .eofValue [])
  | w :: word, c :: rest =>
    if c = w then readWord word rest else .error (.peek .expectedIdent (c :: rest))

/-! ### Texts -/

/-- The value of a hexadecimal digit. -/
def hexDigit? (c : Char) : Option Nat :=
  if '0' ≤ c && c ≤ '9' then some (c.toNat - '0'.toNat)
  else if 'a' ≤ c && c ≤ 'f' then some (c.toNat - 'a'.toNat + 10)
  else if 'A' ≤ c && c ≤ 'F' then some (c.toNat - 'A'.toNat + 10)
  else none

/-- The text has at least `n` bytes. -/
def hasBytes : Nat → List Char → Bool
  | 0, _ => true
  | _ + 1, [] => false
  | n + 1, c :: rest => hasBytes (n + 1 - c.utf8Size) rest

/-- The number that four hexadecimal digits spell. -/
def hexValue? (a b c d : Char) : Option Nat := do
  let a ← hexDigit? a
  let b ← hexDigit? b
  let c ← hexDigit? c
  let d ← hexDigit? d
  some (((a * 16 + b) * 16 + c) * 16 + d)

/-- The fault of a hexadecimal escape that is none: the escape takes four bytes, whatever they
are. -/
def brokenHex (s : List Char) : Fault :=
  if hasBytes 4 s then ⟨.invalidEscape, .after 4 s⟩ else .here .eofText []

/-- The four hexadecimal digits of an escape and the text after them. -/
def readHex (s : List Char) : Except Fault (Nat × List Char) :=
  match s with
  | a :: b :: c :: d :: rest =>
    match hexValue? a b c d with
    | some n => .ok (n, rest)
    | none => .error (brokenHex s)
  | _ => .error (brokenHex s)

/-- The letter `expected` of a second surrogate. -/
def readSurrogateSign (expected : Char) : List Char → Except Fault (List Char)
  | [] => .error (.here .eofText [])
  | c :: rest =>
    if c = expected then .ok rest else .error (.peek .unfinishedSurrogate (c :: rest))

/-- A code escape after its `u`: the character and the number of characters it takes. A
leading surrogate must be followed by the escape of a trailing one. -/
def readCode (s : List Char) : Except Fault (Char × Nat) := do
  let (first, rest) ← readHex s
  if 0xDC00 ≤ first ∧ first ≤ 0xDFFF then throw (.here .loneSurrogate rest)
  if first < 0xD800 ∨ 0xDBFF < first then return (Char.ofNat first, 4)
  let rest ← readSurrogateSign '\\' rest
  let rest ← readSurrogateSign 'u' rest
  let (second, rest) ← readHex rest
  if second < 0xDC00 ∨ 0xDFFF < second then throw (.here .loneSurrogate rest)
  return (Char.ofNat ((first - 0xD800) * 0x400 + (second - 0xDC00) + 0x10000), 10)

/-- The character of a one-letter escape. -/
def shortEscape? : Char → Option Char
  | '"' => some '"'
  | '\\' => some '\\'
  | '/' => some '/'
  | 'b' => some '\x08'
  | 'f' => some '\x0c'
  | 'n' => some '\n'
  | 'r' => some '\r'
  | 't' => some '\t'
  | _ => none

/-- An escape after its backslash: the character and the number of characters it takes. -/
def readEscape : List Char → Except Fault (Char × Nat)
  | [] => .error (.here .eofText [])
  | c :: rest =>
    match shortEscape? c with
    | some d => .ok (d, 1)
    | none =>
      if c = 'u' then (readCode rest).map fun r => (r.1, r.2 + 1)
      else .error (.peek .invalidEscape (c :: rest))

/-- Reads up to the closing quote; `skip` characters belong to an escape already in `done`,
which is reversed. -/
def readTextFrom : List Char → Nat → List Char → Except Fault (List Char × List Char)
  | [], _, _ => .error (.here .eofText [])
  | _ :: rest, skip + 1, done => readTextFrom rest skip done
  | c :: rest, 0, done =>
    if c = '"' then .ok (done.reverse, rest)
    else if c = '\\' then
      match readEscape rest with
      | .ok (d, used) => readTextFrom rest used (d :: done)
      | .error f => .error f
    else if c.toNat < 0x20 then .error (.peek .controlCharacter (c :: rest))
    else readTextFrom rest 0 (c :: done)

/-- The text after an opening quote. -/
def readText (s : List Char) : Except Fault (String × List Char) :=
  (readTextFrom s 0 []).map fun r => (String.ofList r.1, r.2)

/-- The number of characters that an escape takes when its value is not wanted. -/
def skipEscape : List Char → Except Fault Nat
  | [] => .error (.here .eofText [])
  | c :: rest =>
    if (shortEscape? c).isSome then .ok 1
    else if c = 'u' then (readHex rest).map fun _ => 5
    else .error (.peek .invalidEscape (c :: rest))

/-- Passes over a text up to its closing quote; `skip` characters belong to an escape. -/
def skipTextFrom : List Char → Nat → Except Fault (List Char)
  | [], _ => .error (.here .eofText [])
  | _ :: rest, skip + 1 => skipTextFrom rest skip
  | c :: rest, 0 =>
    if c = '"' then .ok rest
    else if c = '\\' then
      match skipEscape rest with
      | .ok used => skipTextFrom rest used
      | .error f => .error f
    else if c.toNat < 0x20 then .error (.here .controlCharacter (c :: rest))
    else skipTextFrom rest 0

/-- Passes over a text after its opening quote. -/
def skipText (s : List Char) : Except Fault (List Char) := skipTextFrom s 0

end ResourceTypes.Json
