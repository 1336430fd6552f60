import ActionItems.Text.Basic

/-! # Shortest decimals

The shortest decimal of a double is the one with the fewest digits that reads back as it, and of
those the nearest. A positive double is `m · 2 ^ q` with whole `m`; the reals that round to it form
an interval around it, whose ends belong to it when `m` is even. For one digit, two digits and so on
the two neighbours of the double on the grid of decimals with that many digits are tested against
the interval, in exact arithmetic on fractions. -/

namespace ActionItems.Decimal

/-- A positive fraction. -/
structure Fraction where
  num : Nat
  den : Nat

/-- The fraction `m · b ^ e`. -/
def Fraction.scaled (m b : Nat) (e : Int) : Fraction :=
  if 0 ≤ e then ⟨m * Nat.pow b e.toNat, 1⟩ else ⟨m, Nat.pow b (-e).toNat⟩

/-- Whether a fraction is less than another. -/
def Fraction.lt (x y : Fraction) : Bool := x.num * y.den < y.num * x.den

/-- Whether a fraction is at most another. -/
def Fraction.le (x y : Fraction) : Bool := x.num * y.den ≤ y.num * x.den

/-- The distance of two fractions. -/
def Fraction.distance (x y : Fraction) : Fraction :=
  ⟨max (x.num * y.den) (y.num * x.den) - min (x.num * y.den) (y.num * x.den), x.den * y.den⟩

/-- The reals that round to one double. -/
structure Interval where
  low : Fraction
  value : Fraction
  high : Fraction
  /-- The ends belong to the interval. -/
  closed : Bool

/-- Whether a fraction lies in the interval. -/
def Interval.holds (i : Interval) (x : Fraction) : Bool :=
  if i.closed then i.low.le x && x.le i.high else i.low.lt x && x.lt i.high

/-- The number of mantissas of doubles with one exponent. -/
def mantissas : Nat := 4503599627370496

/-- The mantissa in the bits of a double. -/
def mantissaOf (bits : UInt64) : Nat := bits.toNat % mantissas

/-- The exponent in the bits of a double. -/
def exponentOf (bits : UInt64) : Nat := bits.toNat / mantissas % 2048

/-- Whether the bits are those of a negative double. -/
def isNegative (bits : UInt64) : Bool := UInt64.size / 2 ≤ bits.toNat

/-- The interval of the double with the given bits, its sign aside; zero and the values that are not
finite have none. -/
def Interval.ofBits (bits : UInt64) : Option Interval :=
  let mantissa := mantissaOf bits
  let exponent := exponentOf bits
  if exponent = 2047 || (exponent = 0 && mantissa = 0) then none
  else
    let m := if exponent = 0 then mantissa else mantissa + mantissas
    let q : Int := if exponent = 0 then -1074 else (exponent : Int) - 1075
    let low := if mantissa = 0 && 1 < exponent then Fraction.scaled (4 * m - 1) 2 (q - 2)
      else Fraction.scaled (2 * m - 1) 2 (q - 1)
    some ⟨low, .scaled m 2 q, .scaled (2 * m + 1) 2 (q - 1), m % 2 = 0⟩

/-- The exponent of the leading decimal digit of a fraction, searched downwards from `top`. -/
def leadingExponent (x : Fraction) : Nat → Int → Int
  | 0, e => e
  | fuel + 1, e => if (Fraction.scaled 1 10 e).le x then e else leadingExponent x fuel (e - 1)

/-- The multiple of `10 ^ e` in the interval that is nearest to its value, if one of the two
neighbours of the value lies in it. -/
def onGrid (i : Interval) (e : Int) : Option Nat :=
  let unit := Fraction.scaled 1 10 e
  let below := i.value.num * unit.den / (i.value.den * unit.num)
  let point (d : Nat) : Fraction := ⟨d * unit.num, unit.den⟩
  match i.holds (point below), i.holds (point (below + 1)) with
  | true, true =>
    if ((point (below + 1)).distance i.value).lt ((point below).distance i.value) then
      some (below + 1)
    else some below
  | true, false => some below
  | false, true => some (below + 1)
  | false, false => none

/-- The first grid, from coarse to fine, with a decimal in the interval. -/
def search (i : Interval) : Nat → Int → Nat × Int
  | 0, e => ((onGrid i e).getD 0, e)
  | fuel + 1, e =>
    match onGrid i e with
    | some d => (d, e)
    | none => search i fuel (e - 1)

/-- The digits `d` and the exponent `e` of the shortest decimal `d · 10 ^ e`. -/
def shortest (i : Interval) : Nat × Int := search i 17 (leadingExponent i.value 700 309)

/-- A decimal written out without an exponent, with at least one digit on each side of the point. -/
def positional (d : Nat) (e : Int) : Text :=
  if 0 ≤ e then Text.ofNat (d * Nat.pow 10 e.toNat) ++ ['.', '0']
  else
    let places := (-e).toNat
    let digits := Text.ofNat d
    let digits := List.replicate (places + 1 - digits.length) '0' ++ digits
    let whole := digits.take (digits.length - places)
    whole ++ '.' :: digits.drop whole.length

/-- The shortest decimal of a double, written out. -/
def ofBits (bits : UInt64) : Text :=
  let sign : Text := if isNegative bits then ['-'] else []
  match Interval.ofBits bits with
  | some i =>
    let (d, e) := shortest i
    sign ++ positional d e
  | none =>
    if exponentOf bits = 0 then sign ++ ['0', '.', '0']
    else if mantissaOf bits = 0 then sign ++ "inf".toList else "NaN".toList

end ActionItems.Decimal
