import ResourceTypes.Json.Literal

/-! # Texts and blanks of TOML

Comments, line ends and the four forms of texts: between single or triple quotes, with escapes
between double quotes and verbatim between apostrophes. A carriage return stands only before
a line feed, and both together count as a line feed. -/

namespace ResourceTypes.Toml

/-- Characters that may stand in a comment or a text. -/
def isPlain (c : Char) : Bool := c == '\t' || (Nat.ble 0x20 c.toNat && c.toNat != 0x7F)

/-- A space or a tab. -/
def isSpace (c : Char) : Bool := c == ' ' || c == '\t'

/-- The text after spaces and tabs. -/
def skipSpace (s : List Char) : List Char := s.dropWhile isSpace

/-- The text after spaces, line ends and comments; `comment` says that one is open. -/
def skipTrivia (comment : Bool) : List Char → Option (List Char)
  | [] => some []
  | c :: rest =>
    if c = '\n' then skipTrivia false rest
    else if c = '\r' then
      match rest with
      | '\n' :: _ => skipTrivia comment rest
      | _ => none
    else if comment then if isPlain c then skipTrivia true rest else none
    else if isSpace c then skipTrivia false rest
    else if c = '#' then skipTrivia true rest
    else some (c :: rest)

/-- The text after the end of a line, before which a comment may stand. -/
def readLineEnd (s : List Char) : Option (List Char) :=
  let s := match skipSpace s with
    | '#' :: comment => comment.dropWhile isPlain
    | s => s
  match s with
  | [] => some []
  | '\n' :: rest => some rest
  | '\r' :: '\n' :: rest => some rest
  | _ => none

/-! ### Escapes -/

/-- The character of a code, unless it is no character. -/
def charOfCode? (n : Nat) : Option Char :=
  if n < 0xD800 ∨ (0xDFFF < n ∧ n < 0x110000) then some (Char.ofNat n) else none

/-- The character of an escape after its backslash and the number of characters it takes. -/
def readEscape : List Char → Option (Char × Nat)
  | 'b' :: _ => some ('\x08', 1)
  | 't' :: _ => some ('\t', 1)
  | 'n' :: _ => some ('\n', 1)
  | 'f' :: _ => some ('\x0c', 1)
  | 'r' :: _ => some ('\r', 1)
  | '"' :: _ => some ('"', 1)
  | '\\' :: _ => some ('\\', 1)
  | 'u' :: a :: b :: c :: d :: _ => do
    let n ← Json.hexValue? a b c d
    let ch ← charOfCode? n
    return (ch, 5)
  | 'U' :: a :: b :: c :: d :: a' :: b' :: c' :: d' :: _ => do
    let high ← Json.hexValue? a b c d
    let low ← Json.hexValue? a' b' c' d'
    let ch ← charOfCode? (high * 0x10000 + low)
    return (ch, 9)
  | _ => none

/-- The number of blanks and line ends after a backslash that ends its line. -/
def foldedLength (s : List Char) : Option Nat :=
  match skipSpace s with
  | '\n' :: _ | '\r' :: '\n' :: _ =>
    some (s.takeWhile fun c => isSpace c || c == '\n' || c == '\r').length
  | _ => none

/-! ### Texts on one line -/

/-- Reads up to the closing double quote; `skip` characters belong to an escape already in
`done`, which is reversed. -/
def readBasicFrom : List Char → Nat → List Char → Option (List Char × List Char)
  | [], _, _ => none
  | _ :: rest, skip + 1, done => readBasicFrom rest skip done
  | c :: rest, 0, done =>
    if c = '"' then some (done.reverse, rest)
    else if c = '\\' then
      match readEscape rest with
      | some (d, used) => readBasicFrom rest used (d :: done)
      | none => none
    else if isPlain c then readBasicFrom rest 0 (c :: done)
    else none

/-- Reads up to the closing apostrophe. -/
def readLiteral (s : List Char) : Option (List Char × List Char) :=
  match s.dropWhile (· != '\'') with
  | [] => none
  | _ :: rest =>
    let body := s.takeWhile (· != '\'')
    if body.all isPlain then some (body, rest) else none

/-! ### Texts on several lines -/

/-- Reads up to three closing quotes, before which two more may stand; `escapes` says that
backslashes count. -/
def readLongFrom (quote : Char) (escapes : Bool) :
    List Char → Nat → List Char → Option (List Char × List Char)
  | [], _, _ => none
  | _ :: rest, skip + 1, done => readLongFrom quote escapes rest skip done
  | c :: rest, 0, done =>
    if c = quote then
      let run := ((c :: rest).takeWhile (· == quote)).length
      if run < 3 then readLongFrom quote escapes rest 0 (c :: done)
      else if run ≤ 5 then
        some (done.reverse ++ List.replicate (run - 3) quote, (c :: rest).drop run)
      else none
    else if escapes && c == '\\' then
      match foldedLength rest with
      | some used => readLongFrom quote escapes rest used done
      | none =>
        match readEscape rest with
        | some (d, used) => readLongFrom quote escapes rest used (d :: done)
        | none => none
    else if c = '\r' then
      match rest with
      | '\n' :: _ => readLongFrom quote escapes rest 0 done
      | _ => none
    else if c = '\n' || isPlain c then readLongFrom quote escapes rest 0 (c :: done)
    else none

/-- Reads a text on several lines after its opening quotes; a line end right after them does
not count. -/
def readLong (quote : Char) (escapes : Bool) (s : List Char) :
    Option (List Char × List Char) :=
  match s with
  | '\n' :: rest | '\r' :: '\n' :: rest => readLongFrom quote escapes rest 0 []
  | _ => readLongFrom quote escapes s 0 []

/-- Reads a text on one line. -/
def readShort : List Char → Option (List Char × List Char)
  | '"' :: rest => readBasicFrom rest 0 []
  | '\'' :: rest => readLiteral rest
  | _ => none

/-- Reads a text. -/
def readText : List Char → Option (List Char × List Char)
  | '"' :: '"' :: '"' :: rest => readLong '"' true rest
  | '\'' :: '\'' :: '\'' :: rest => readLong '\'' false rest
  | s => readShort s

end ResourceTypes.Toml
