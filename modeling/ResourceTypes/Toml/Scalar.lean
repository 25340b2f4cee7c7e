import ResourceTypes.Toml.Value

/-! # Scalars of TOML texts

Truth values, integers, floating point numbers, dates and times are told apart by the form of
the token that spells them; `Scalar.ofToken?` refuses a token of no form. -/

namespace ResourceTypes.Toml

/-! ### Numbers -/

/-- Digits that may be parted by single underscores, after a digit. -/
def moreDigits (isDigit : Char → Bool) : List Char → Bool
  | [] => true
  | '_' :: d :: rest => isDigit d && moreDigits isDigit rest
  | d :: rest => isDigit d && moreDigits isDigit rest

/-- At least one digit; single underscores may part digits. -/
def isDigits (isDigit : Char → Bool) : List Char → Bool
  | [] => false
  | d :: rest => isDigit d && moreDigits isDigit rest

/-- A hexadecimal digit. -/
def isHexDigit (c : Char) : Bool :=
  c.isDigit || ('a' ≤ c && c ≤ 'f') || ('A' ≤ c && c ≤ 'F')

/-- A decimal integer without its sign: no zero leads further digits. -/
def isDecimal : List Char → Bool
  | ['0'] => true
  | '0' :: _ => false
  | s => isDigits Char.isDigit s

/-- A number without its sign. -/
def unsigned (s : List Char) : List Char :=
  match s with
  | '+' :: rest | '-' :: rest => rest
  | _ => s

/-- An integer. -/
def isInteger (s : List Char) : Bool :=
  match s with
  | '0' :: 'x' :: rest => isDigits isHexDigit rest
  | '0' :: 'o' :: rest => isDigits (fun c => '0' ≤ c && c ≤ '7') rest
  | '0' :: 'b' :: rest => isDigits (fun c => c == '0' || c == '1') rest
  | _ => isDecimal (unsigned s)

/-- The letter of an exponent. -/
def isExponentLetter (c : Char) : Bool := c == 'e' || c == 'E'

/-- A fraction after its point, possibly with an exponent. -/
def isFraction (s : List Char) : Bool :=
  let digits := s.takeWhile fun c => !isExponentLetter c
  isDigits Char.isDigit digits &&
    match s.dropWhile fun c => !isExponentLetter c with
    | [] => true
    | _ :: exponent => isDigits Char.isDigit (unsigned exponent)

/-- A floating point number. -/
def isFloat (s : List Char) : Bool :=
  let s := unsigned s
  s == ['i', 'n', 'f'] || s == ['n', 'a', 'n'] ||
    (isDecimal (s.takeWhile fun c => !(c == '.' || isExponentLetter c)) &&
      match s.dropWhile fun c => !(c == '.' || isExponentLetter c) with
      | [] => false
      | '.' :: fraction => isFraction fraction
      | _ :: exponent => isDigits Char.isDigit (unsigned exponent))

/-! ### Dates and times -/

/-- The number of two digits. -/
def twoDigits? (a b : Char) : Option Nat :=
  if a.isDigit && b.isDigit then some ((a.toNat - 48) * 10 + (b.toNat - 48)) else none

/-- Years divisible by four are leap years, those by a hundred only if by four hundred. -/
def isLeapYear (year : Nat) : Bool := year % 4 == 0 && (year % 100 != 0 || year % 400 == 0)

/-- The number of days of a month. -/
def daysOf (year month : Nat) : Nat :=
  if month = 2 then if isLeapYear year then 29 else 28
  else if month = 4 ∨ month = 6 ∨ month = 9 ∨ month = 11 then 30
  else 31

/-- The text after a date. -/
def afterDate? : List Char → Option (List Char)
  | y :: y' :: y'' :: y''' :: '-' :: m :: m' :: '-' :: d :: d' :: rest => do
    let century ← twoDigits? y y'
    let year ← twoDigits? y'' y'''
    let month ← twoDigits? m m'
    let day ← twoDigits? d d'
    guard (1 ≤ month ∧ month ≤ 12 ∧ 1 ≤ day ∧ day ≤ daysOf (century * 100 + year) month)
    return rest
  | _ => none

/-- The text after the fraction of a second, if there is one. -/
def afterSubsecond? : List Char → Option (List Char)
  | '.' :: rest =>
    match rest with
    | d :: more => if d.isDigit then some (more.dropWhile Char.isDigit) else none
    | [] => none
  | s => some s

/-- The text after a time. -/
def afterTime? : List Char → Option (List Char)
  | h :: h' :: ':' :: m :: m' :: ':' :: s :: s' :: rest => do
    let hour ← twoDigits? h h'
    let minute ← twoDigits? m m'
    let second ← twoDigits? s s'
    guard (hour ≤ 23 ∧ minute ≤ 59 ∧ second ≤ 60)
    afterSubsecond? rest
  | _ => none

/-- An offset from universal time. -/
def isOffset : List Char → Bool
  | ['Z'] | ['z'] => true
  | sign :: h :: h' :: ':' :: m :: [m'] =>
    (sign == '+' || sign == '-') &&
      match twoDigits? h h', twoDigits? m m' with
      | some hour, some minute => Nat.ble hour 23 && Nat.ble minute 59
      | _, _ => false
  | _ => false

/-- A date, a time, or both with or without an offset. -/
def isDatetime (s : List Char) : Bool :=
  match afterDate? s with
  | none => afterTime? s == some []
  | some [] => true
  | some (mark :: rest) =>
    (mark == 'T' || mark == 't' || mark == ' ') &&
      match afterTime? rest with
      | none => false
      | some [] => true
      | some offset => isOffset offset

/-- The kind of scalar that a token spells. -/
def Scalar.ofToken? (s : List Char) : Option Scalar :=
  if s = ['t', 'r', 'u', 'e'] ∨ s = ['f', 'a', 'l', 's', 'e'] then some .boolean
  else if isInteger s then some .integer
  else if isFloat s then some .float
  else if isDatetime s then some .datetime
  else none

end ResourceTypes.Toml
