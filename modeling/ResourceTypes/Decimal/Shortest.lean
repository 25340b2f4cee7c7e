/-! # Shortest decimals

The shortest decimal of a binary floating point number is the decimal with the fewest digits
that reads back as the number, and of those the nearest to it; an exact tie goes to the even
last digit. A finite number is `m · 2 ^ q`, and the decimals that read back as it fill an
interval around it whose ends belong to it when `m` is even. For 1, 2, …, 17 digits the two
neighbours of the number on that decimal grid are compared with the ends in exact arithmetic,
and the first grid with a hit wins. -/

namespace ResourceTypes

/-- The decimal `digits · 10 ^ exponent`, possibly with a sign. -/
structure Decimal where
  negative : Bool
  digits : Nat
  exponent : Int
deriving DecidableEq, Repr

/-- A finite binary number `significand · 2 ^ exponent`; `narrow` says that the gap below it
is half the gap above it. -/
structure Dyadic where
  significand : Nat
  exponent : Int
  narrow : Bool
deriving DecidableEq, Repr

namespace Dyadic

/-- The number of a bit pattern, its sign apart. -/
def ofBits (bits : Nat) : Dyadic :=
  let fraction := bits % Nat.pow 2 52
  let biased := bits / Nat.pow 2 52 % Nat.pow 2 11
  if biased = 0 then ⟨fraction, -1074, false⟩
  else ⟨Nat.pow 2 52 + fraction, (biased : Int) - 1075, fraction = 0 && biased ≠ 1⟩

/-- The exponent of the leading decimal digit of a number other than zero. -/
def leadingExponent (v : Dyadic) : Int :=
  let scaled :=
    v.significand * Nat.pow 2 v.exponent.toNat * Nat.pow 10 400 / Nat.pow 2 (-v.exponent).toNat
  ((Nat.toDigits 10 scaled).length : Int) - 401

/-- The scale of grid points: `c · 10 ^ p` stands to `x · 2 ^ (exponent - 2)` as `c` times the
first factor to `x` times the second. -/
def scales (v : Dyadic) (p : Int) : Nat × Nat :=
  let q := v.exponent - 2
  (Nat.pow 10 p.toNat * Nat.pow 2 (-q).toNat, Nat.pow 2 q.toNat * Nat.pow 10 (-p).toNat)

/-- The grid point `c · 10 ^ p` reads back as the number. -/
def readsBack (v : Dyadic) (p : Int) (c : Nat) : Bool :=
  let (a, b) := v.scales p
  let low := (4 * v.significand - if v.narrow then 1 else 2) * b
  let high := (4 * v.significand + 2) * b
  if v.significand % 2 = 0 then Nat.ble low (c * a) && Nat.ble (c * a) high
  else Nat.blt low (c * a) && Nat.blt (c * a) high

/-- The neighbour on the grid of step `10 ^ p` that reads back and is nearest, if any does. -/
def nearest? (v : Dyadic) (p : Int) : Option Nat :=
  let (a, b) := v.scales p
  let value := 4 * v.significand * b
  let c := value / a
  match v.readsBack p c, v.readsBack p (c + 1) with
  | false, false => none
  | true, false => some c
  | false, true => some (c + 1)
  | true, true =>
    let below := value - c * a
    let above := (c + 1) * a - value
    if below < above then some c
    else if above < below then some (c + 1)
    else if c % 2 = 0 then some c else some (c + 1)

/-- Drops trailing zeros, at most `fuel` of them. -/
def withoutZeros : Nat → Nat → Int → Nat × Int
  | 0, digits, exponent => (digits, exponent)
  | fuel + 1, digits, exponent =>
    if digits % 10 = 0 then withoutZeros fuel (digits / 10) (exponent + 1) else (digits, exponent)

/-- The digits and the exponent of the shortest decimal. -/
def shortest (v : Dyadic) : Nat × Int :=
  if v.significand = 0 then (0, 0)
  else
    let leading := v.leadingExponent
    let hit := (List.range 17).findSome? fun (n : Nat) =>
      (v.nearest? (leading - (n : Int))).map fun c => (c, leading - (n : Int))
    match hit with
    | some (c, p) => withoutZeros 20 c p
    | none => (v.significand, v.exponent)

end Dyadic

namespace Decimal

/-- The shortest decimal of a finite floating point number. -/
def ofFloat (x : Float) : Decimal :=
  let bits := x.toBits.toNat
  let (digits, exponent) := (Dyadic.ofBits bits).shortest
  ⟨bits / Nat.pow 2 63 = 1, digits, exponent⟩

/-- Where positional notation is used: while the leading digit stands between `10 ^ first` and
`10 ^ last`. -/
structure PointStyle where
  first : Int
  last : Int

/-- The digits with a point after the leading one, if there are more. -/
def mantissa (digits : List Char) : List Char :=
  match digits with
  | [] => []
  | [d] => [d]
  | d :: rest => d :: '.' :: rest

/-- The text of a decimal. Positional notation always shows a point with a digit on each side;
otherwise an exponent with its sign follows the digits. -/
def text (format : PointStyle) (x : Decimal) : String :=
  let digits := Nat.toDigits 10 x.digits
  let leading := (digits.length : Int) - 1 + x.exponent
  let body :=
    if x.digits = 0 then ['0', '.', '0']
    else if format.first ≤ leading && leading ≤ format.last then
      if 0 ≤ x.exponent then digits ++ List.replicate x.exponent.toNat '0' ++ ['.', '0']
      else if 0 ≤ leading then
        digits.take (leading.toNat + 1) ++ '.' :: digits.drop (leading.toNat + 1)
      else '0' :: '.' :: List.replicate (-leading - 1).toNat '0' ++ digits
    else
      mantissa digits ++ 'e' :: (if leading < 0 then '-' else '+') ::
        Nat.toDigits 10 leading.natAbs
  String.ofList (if x.negative then '-' :: body else body)

end Decimal

end ResourceTypes
