import ResourceTypes.Json.Number

/-! # Passing over JSON values

A value that nobody asked for is passed over with its grammar checked, at any depth: the
containers that are open are kept in a list. `fuel` bounds the number of values and closing
brackets; the length of the text is enough. -/

namespace ResourceTypes.Json

/-- A container that is open. -/
inductive Frame where
  | list
  | object
deriving DecidableEq, Repr

/-- The bracket that closes a container. -/
def Frame.close : Frame → Char
  | .list => ']'
  | .object => '\x7d'

/-- The fault of a text that ends inside a container. -/
def Frame.eof : Frame → Cause
  | .list => .eofList
  | .object => .eofObject

/-- The fault of a value that no comma or closing bracket follows. -/
def Frame.unclosed : Frame → Cause
  | .list => .expectedListEnd
  | .object => .expectedObjectEnd

/-- The colon after a key. -/
def readColon (s : List Char) : Except Fault (List Char) :=
  match skipSpace s with
  | [] => .error (.peek .eofObject [])
  | c :: rest => if c = ':' then .ok rest else .error (.peek .expectedColon (c :: rest))

/-- Passes over the key of an object entry and its colon. -/
def skipKey (s : List Char) : Except Fault (List Char) :=
  match skipSpace s with
  | [] => .error (.peek .eofObject [])
  | c :: rest =>
    if c = '"' then
      match skipText rest with
      | .ok rest => readColon rest
      | .error f => .error f
    else .error (.peek .keyNotText (c :: rest))

/-- Passes over whatever comes before the next value of a container. -/
def skipBefore : Frame → List Char → Except Fault (List Char)
  | .list, s => .ok s
  | .object, s => skipKey s

/-- A value that holds no others, passed over: `none` if a bracket opens a container. -/
def skipScalar (s : List Char) : Except Fault (Option (List Char)) :=
  match s with
  | [] => .error (.peek .eofValue [])
  | c :: rest =>
    if c = '"' then (skipText rest).map some
    else if c = '[' ∨ c = '\x7b' then .ok none
    else if c = 'n' then (readWord ['u', 'l', 'l'] rest).map some
    else if c = 't' then (readWord ['r', 'u', 'e'] rest).map some
    else if c = 'f' then (readWord ['a', 'l', 's', 'e'] rest).map some
    else if c = '-' then (skipNumber rest).map some
    else if c.isDigit then (skipNumber s).map some
    else .error (.peek .expectedValue s)

/-- What comes next while a value is passed over. -/
inductive Expecting where
  /-- A value. -/
  | value
  /-- A first value or the closing bracket of the innermost container. -/
  | first
  /-- A comma or the closing bracket of the innermost container. -/
  | next

/-- Passes over values until all open containers are closed. -/
def skipLoop : Nat → Expecting → List Frame → List Char → Except Fault (List Char)
  | 0, _, _, s => .error (.here .eofValue s)
  | _ + 1, .next, [], s => .ok s
  | _ + 1, .first, [], s => .ok s
  | fuel + 1, .value, frames, s =>
    let s := skipSpace s
    match skipScalar s with
    | .error f => .error f
    | .ok (some rest) => skipLoop fuel .next frames rest
    | .ok none =>
      match s with
      | '[' :: rest => skipLoop fuel .first (.list :: frames) rest
      | _ => skipLoop fuel .first (.object :: frames) (s.drop 1)
  | fuel + 1, .first, frame :: frames, s =>
    match skipSpace s with
    | [] => .error (.peek frame.eof [])
    | c :: rest =>
      if c = frame.close then skipLoop fuel .next frames rest
      else
        match skipBefore frame (c :: rest) with
        | .error f => .error f
        | .ok rest => skipLoop fuel .value (frame :: frames) rest
  | fuel + 1, .next, frame :: frames, s =>
    match skipSpace s with
    | [] => .error (.peek frame.eof [])
    | c :: rest =>
      if c = frame.close then skipLoop fuel .next frames rest
      else if c = ',' then
        match skipBefore frame rest with
        | .error f => .error f
        | .ok rest => skipLoop fuel .value (frame :: frames) rest
      else .error (.peek frame.unclosed (c :: rest))

/-- Passes over one value. -/
def skipValue (fuel : Nat) (s : List Char) : Except Fault (List Char) :=
  skipLoop fuel .value [] s

end ResourceTypes.Json
