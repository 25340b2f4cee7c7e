/-! # Text as bytes

UTF-8 in both directions. `decode?` accepts exactly well formed bytes; `decodeLossy` reads
any bytes and puts one replacement character for each longest start of a character that
breaks off. Both are one walk over the bytes with the size of the character in front, given
by `lead`. -/

namespace ResourceTypes.Text

/-- What stands in front of a byte sequence: a character of `size` bytes, or `size` bytes
that begin no character. -/
inductive Lead where
  | char (c : Char) (size : Nat)
  | broken (size : Nat)
deriving Repr, DecidableEq

/-- A continuation byte that lies between `low` and `high`. -/
def tail? (low high : Nat) (b : UInt8) : Option Nat :=
  if Nat.ble low b.toNat && Nat.ble b.toNat high then some (b.toNat - 0x80) else none

/-- The last continuation byte of a character; `value` holds the bits read so far. -/
def leadLast (value size : Nat) : List UInt8 → Lead
  | [] => .broken size
  | b :: _ =>
    match tail? 0x80 0xBF b with
    | some t => .char (Char.ofNat (value * 64 + t)) (size + 1)
    | none => .broken size

/-- The last two continuation bytes of a character. -/
def leadTwo (value size low high : Nat) : List UInt8 → Lead
  | [] => .broken size
  | b :: rest =>
    match tail? low high b with
    | some t => leadLast (value * 64 + t) (size + 1) rest
    | none => .broken size

/-- The three continuation bytes of a character of four bytes. -/
def leadThree (value low high : Nat) : List UInt8 → Lead
  | [] => .broken 1
  | b :: rest =>
    match tail? low high b with
    | some t => leadTwo (value * 64 + t) 2 0x80 0xBF rest
    | none => .broken 1

/-- The character that begins with byte `b`. -/
def lead (b : UInt8) (rest : List UInt8) : Lead :=
  let n := b.toNat
  if n < 0x80 then .char (Char.ofNat n) 1
  else if n < 0xC2 then .broken 1
  else if n < 0xE0 then leadLast (n - 0xC0) 1 rest
  else if n = 0xE0 then leadTwo 0 1 0xA0 0xBF rest
  else if n = 0xED then leadTwo 0xD 1 0x80 0x9F rest
  else if n < 0xF0 then leadTwo (n - 0xE0) 1 0x80 0xBF rest
  else if n = 0xF0 then leadThree 0 0x90 0xBF rest
  else if n < 0xF4 then leadThree (n - 0xF0) 0x80 0xBF rest
  else if n = 0xF4 then leadThree 4 0x80 0x8F rest
  else .broken 1

/-- Decodes well formed bytes; `skip` bytes belong to a character already in `done`. -/
def decodeFrom : List UInt8 → Nat → List Char → Option (List Char)
  | [], _, done => some done.reverse
  | _ :: rest, skip + 1, done => decodeFrom rest skip done
  | b :: rest, 0, done =>
    match lead b rest with
    | .char c size => decodeFrom rest (size - 1) (c :: done)
    | .broken _ => none

/-- The text that the bytes encode, if they are well formed. -/
def decode? (bytes : List UInt8) : Option (List Char) := decodeFrom bytes 0 []

/-- Decodes any bytes; `skip` bytes belong to a character already in `done`. -/
def decodeLossyFrom : List UInt8 → Nat → List Char → List Char
  | [], _, done => done.reverse
  | _ :: rest, skip + 1, done => decodeLossyFrom rest skip done
  | b :: rest, 0, done =>
    match lead b rest with
    | .char c size => decodeLossyFrom rest (size - 1) (c :: done)
    | .broken size => decodeLossyFrom rest (size - 1) ('\uFFFD' :: done)

/-- The text that the bytes encode, with a replacement character for each broken start. -/
def decodeLossy (bytes : List UInt8) : List Char := decodeLossyFrom bytes 0 []

/-- The bytes of a text. -/
def encode (s : List Char) : List UInt8 := s.flatMap String.utf8EncodeChar

/-- The number of bytes of a text. -/
def byteLength (s : List Char) : Nat := s.foldl (fun n c => n + c.utf8Size) 0

end ResourceTypes.Text
