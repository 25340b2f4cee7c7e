import ResourceTypes.Json.Literal

/-! # Numbers of JSON texts

A number that is passed over needs only its grammar (`skipNumber`). A number that is wanted is
read into 64 bits: an integer if it fits, else a floating point number from its first digits
and a power of ten. Digits that no longer fit the significand only count for the exponent. -/

namespace ResourceTypes.Json

/-- The value of a decimal digit. -/
def digit? (c : Char) : Option Nat := if c.isDigit then some (c.toNat - '0'.toNat) else none

/-- The text after its leading digits. -/
def skipDigits (s : List Char) : List Char := s.dropWhile Char.isDigit

/-! ### Passing over -/

/-- Passes over an exponent after its letter. -/
def skipExponent (s : List Char) : Except Fault (List Char) :=
  let s := match s with
    | '+' :: rest | '-' :: rest => rest
    | _ => s
  match s with
  | [] => .error (.here .invalidNumber [])
  | c :: rest => if c.isDigit then .ok (skipDigits rest) else .error (.peek .invalidNumber s)

/-- Passes over an exponent, if one comes next. -/
def skipExponent? : List Char → Except Fault (List Char)
  | 'e' :: rest | 'E' :: rest => skipExponent rest
  | s => .ok s

/-- Passes over the fraction and the exponent of a number. -/
def skipFraction : List Char → Except Fault (List Char)
  | '.' :: rest =>
    match rest with
    | [] => .error (.peek .invalidNumber [])
    | c :: _ =>
      if c.isDigit then skipExponent? (skipDigits rest) else .error (.peek .invalidNumber rest)
  | s => skipExponent? s

/-- Passes over a number after its sign. -/
def skipNumber : List Char → Except Fault (List Char)
  | [] => .error (.here .invalidNumber [])
  | c :: rest =>
    if c = '0' then
      match rest with
      | d :: _ => if d.isDigit then .error (.peek .invalidNumber rest) else skipFraction rest
      | [] => .ok []
    else if c.isDigit then skipFraction (skipDigits rest)
    else .error (.peek .invalidNumber (c :: rest))

/-! ### Reading -/

/-- The greatest significand. -/
def maxSignificand : Nat := Nat.pow 2 64 - 1

/-- The greatest exponent that is read digit by digit. -/
def maxExponent : Nat := Nat.pow 2 31 - 1

/-- Scales a floating point number by a power of ten, in steps of at most `10 ^ 308`; `none`
when it grows beyond all bounds. -/
def scaleFloat : Nat → Float → Int → Option Float
  | 0, _, _ => none
  | fuel + 1, x, exponent =>
    if exponent.natAbs ≤ 308 then
      let power := Float.ofScientific 1 false exponent.natAbs
      if exponent < 0 then some (x / power)
      else if (x * power).isInf then none else some (x * power)
    else if x == 0.0 then some x
    else if 0 ≤ exponent then none
    else scaleFloat fuel (x / Float.ofScientific 1 false 308) (exponent + 308)

/-- The floating point number with the given sign, significand and power of ten. -/
def floatOfParts (negative : Bool) (significand : Nat) (exponent : Int) (rest : List Char) :
    Except Fault (Found × List Char) :=
  match scaleFloat 8 (Float.ofNat significand) exponent with
  | none => .error (.here .numberOutOfRange rest)
  | some x => .ok (.floating (Decimal.ofFloat (if negative then -x else x)), rest)

/-- Reads the digits of an exponent until it grows beyond its bound. -/
def exponentDigits : Nat → List Char → Nat × Bool × List Char
  | n, [] => (n, true, [])
  | n, c :: rest =>
    match digit? c with
    | none => (n, true, c :: rest)
    | some d =>
      if n * 10 + d ≤ maxExponent then exponentDigits (n * 10 + d) rest else (n, false, rest)

/-- Reads an exponent after its letter, where `start` is the exponent so far. -/
def readExponent (negative : Bool) (significand : Nat) (start : Int) (s : List Char) :
    Except Fault (Found × List Char) :=
  let (down, s) := match s with
    | '+' :: rest => (false, rest)
    | '-' :: rest => (true, rest)
    | _ => (false, s)
  match s with
  | [] => .error (.here .eofValue [])
  | c :: rest =>
    match digit? c with
    | none => .error (.peek .invalidNumber s)
    | some d =>
      match exponentDigits d rest with
      | (n, true, rest) =>
        floatOfParts negative significand (if down then start - n else start + n) rest
      | (_, false, rest) =>
        if significand ≠ 0 && !down then .error (.here .numberOutOfRange rest)
        else floatOfParts negative 0 0 (skipDigits rest)

/-- Ends a floating point number with an exponent, if one comes next. -/
def readExponent? (negative : Bool) (significand : Nat) (exponent : Int) :
    List Char → Except Fault (Found × List Char)
  | 'e' :: rest | 'E' :: rest => readExponent negative significand exponent rest
  | s => floatOfParts negative significand exponent s

/-- Reads the digits of a fraction while they fit the significand; gives the significand, the
number of digits read and the text after all digits. -/
def fractionDigits : Nat → Nat → List Char → Nat × Nat × List Char
  | significand, count, [] => (significand, count, [])
  | significand, count, c :: rest =>
    match digit? c with
    | none => (significand, count, c :: rest)
    | some d =>
      if significand * 10 + d ≤ maxSignificand then
        fractionDigits (significand * 10 + d) (count + 1) rest
      else (significand, count, skipDigits rest)

/-- Reads a fraction after its point. -/
def readFraction (negative : Bool) (significand : Nat) (exponent : Int) (s : List Char) :
    Except Fault (Found × List Char) :=
  match s with
  | [] => .error (.peek .eofValue [])
  | c :: _ =>
    if c.isDigit then
      let (significand, count, rest) := fractionDigits significand 0 s
      readExponent? negative significand (exponent - count) rest
    else .error (.peek .invalidNumber s)

/-- Reads what follows the integer digits of a number whose significand is full. -/
def readLong (negative : Bool) (significand : Nat) (extra : Nat) :
    List Char → Except Fault (Found × List Char)
  | '.' :: rest => readFraction negative significand extra rest
  | s => readExponent? negative significand extra s

/-- Reads what follows the integer digits of a number. -/
def readShort (negative : Bool) (significand : Nat) (s : List Char) :
    Except Fault (Found × List Char) :=
  match s with
  | '.' :: rest => readFraction negative significand 0 rest
  | 'e' :: rest | 'E' :: rest => readExponent negative significand 0 rest
  | _ =>
    if !negative then .ok (.integer significand, s)
    else if 0 < significand && significand ≤ Nat.pow 2 63 then .ok (.integer (-significand), s)
    else floatOfParts true significand 0 s

/-- Reads further integer digits while they fit the significand. -/
def integerDigits (negative : Bool) : Nat → List Char → Except Fault (Found × List Char)
  | significand, [] => readShort negative significand []
  | significand, c :: rest =>
    match digit? c with
    | none => readShort negative significand (c :: rest)
    | some d =>
      if significand * 10 + d ≤ maxSignificand then
        integerDigits negative (significand * 10 + d) rest
      else
        readLong negative significand ((c :: rest).takeWhile Char.isDigit).length
          (skipDigits (c :: rest))

/-- Reads a number after its sign. -/
def readNumber (negative : Bool) (s : List Char) : Except Fault (Found × List Char) :=
  match s with
  | [] => .error (.here .eofValue [])
  | c :: rest =>
    match digit? c with
    | none => .error (.peek .invalidNumber s)
    | some 0 =>
      match rest with
      | [] => readShort negative 0 []
      | d :: _ =>
        if d.isDigit then .error (.peek .invalidNumber rest) else readShort negative 0 rest
    | some d => integerDigits negative d rest

end ResourceTypes.Json
