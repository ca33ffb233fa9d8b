/-!
# The shortest decimal of a double

`Decimal.text x` writes a finite double without an exponent in the fewest digits that read back as `x`;
of two such decimals it takes the nearer one, and of two equally near ones the larger. Whole values have
no point, and a negative zero keeps its sign.

A double is `significand * 2 ^ exponent`. The reals that round to it form an interval that reaches half
way to each neighbour, its ends included when the significand is even.
-/

namespace Adf.Decimal

/-- The magnitude of a finite double. -/
structure Magnitude where
  significand : Nat
  exponent : Int
deriving DecidableEq, Repr

/-- The least significand of a double that is not subnormal. -/
def leastNormal : Nat := 0x10000000000000

/-- Splits the bits of a double into its sign and its magnitude. -/
def decode (x : Float) : Bool × Magnitude :=
  let bits := x.toBits.toNat
  let fraction := bits % leastNormal
  let biased : Nat := bits / leastNormal % 0x800
  let magnitude : Magnitude :=
    if biased = 0 then { significand := fraction, exponent := -1074 }
    else { significand := leastNormal + fraction, exponent := (biased : Int) - 1075 }
  (bits / 0x8000000000000000 = 1, magnitude)

/-- A positive rational, held as a numerator and a denominator. -/
structure Ratio where
  num : Nat
  den : Nat

/-- The number `n * 2 ^ e`. -/
def Ratio.scaled (n : Nat) (e : Int) : Ratio :=
  if 0 ≤ e then ⟨n * Nat.pow 2 e.toNat, 1⟩ else ⟨n, Nat.pow 2 (-e).toNat⟩

/-- How often `10 ^ k` goes into the ratio, as a ratio again. -/
def Ratio.per (r : Ratio) (k : Int) : Ratio :=
  if 0 ≤ k then ⟨r.num, r.den * Nat.pow 10 k.toNat⟩ else ⟨r.num * Nat.pow 10 (-k).toNat, r.den⟩

/-- The interval of the reals that round to a magnitude, in quarters of a unit of its last place. -/
structure Interval where
  low : Ratio
  value : Ratio
  high : Ratio
  closed : Bool

def Magnitude.interval (m : Magnitude) : Interval :=
  -- below a power of two the neighbour is only half as far away
  let below := if m.significand = leastNormal ∧ m.exponent ≠ -1074 then 1 else 2
  { low := .scaled (4 * m.significand - below) (m.exponent - 2)
    value := .scaled (4 * m.significand) (m.exponent - 2)
    high := .scaled (4 * m.significand + 2) (m.exponent - 2)
    closed := m.significand % 2 = 0 }

/-- Whether `digits * 10 ^ k` lies in the interval. -/
def Interval.holds (i : Interval) (k : Int) (digits : Nat) : Bool :=
  let low := i.low.per k
  let high := i.high.per k
  if i.closed then low.num ≤ digits * low.den && digits * high.den ≤ high.num
  else low.num < digits * low.den && digits * high.den < high.num

/-- The nearest multiple of `10 ^ k` in the interval, if it holds one. -/
def Interval.nearest? (i : Interval) (k : Int) : Option Nat :=
  let v := i.value.per k
  let down := v.num / v.den
  let up := down + 1
  match i.holds k down, i.holds k up with
  | true, true => if 2 * (v.num % v.den) < v.den then some down else some up
  | true, false => some down
  | false, true => some up
  | false, false => none

/-- Tries the grids `10 ^ k`, `10 ^ (k - 1)`, … and takes the first that has a point in the interval. -/
def Interval.coarsest (i : Interval) : Nat → Int → Nat × Int
  | 0, k => (i.value.num / i.value.den, k)
  | fuel + 1, k =>
    match i.nearest? k with
    | some digits => (digits, k)
    | none => i.coarsest fuel (k - 1)

/-- Digits and exponent of the shortest decimal. No double reaches `10 ^ 309`, and below `10 ^ -324` the
interval of every double holds a point. -/
def Magnitude.shortest (m : Magnitude) : Nat × Int :=
  m.interval.coarsest 640 309

/-- The number `digits * 10 ^ k` without an exponent. -/
def positional (digits : Nat) (k : Int) : String :=
  if 0 ≤ k then toString (digits * Nat.pow 10 k.toNat)
  else
    let places := (-k).toNat
    let fraction := toString (digits % Nat.pow 10 places)
    toString (digits / Nat.pow 10 places) ++ "." ++ "".pushn '0' (places - fraction.length) ++ fraction

def text (x : Float) : String :=
  let (negative, m) := decode x
  let body :=
    if m.significand = 0 then "0"
    else
      let (digits, k) := m.shortest
      positional digits k
  if negative then "-" ++ body else body

end Adf.Decimal
