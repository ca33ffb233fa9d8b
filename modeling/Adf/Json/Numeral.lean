import Adf.Json.Basic

/-!
# The value of a numeral

The digits of a numeral fill a 64-bit significand and go no further: from the first digit that does not fit
on, digits before the point only raise the exponent, and once a digit after the point does not fit the rest
of them is dropped. An integer whose digits all fit and which lies in `-2 ^ 63 … 2 ^ 64 - 1` is kept
exactly; every other numeral becomes the significand, as a double, times or divided by a power of ten.
-/

namespace Adf.Json

/-- A numeral as it was read. -/
structure Numeral where
  negative : Bool
  /-- The digits before the point. -/
  whole : List Nat
  /-- The digits after the point, if there is one. -/
  fraction : Option (List Nat)
  /-- The digits of the exponent and whether a minus stands before them, if there is one. -/
  exponent : Option (Bool × List Nat)
deriving DecidableEq, Repr

namespace Numeral

/-- A digit more, unless the significand would leave 64 bits. -/
def push? (significand digit : Nat) : Option Nat :=
  let next := significand * 10 + digit
  if next < 0x10000000000000000 then some next else none

/-- The significand of the digits before the point, and how many of them did not fit. -/
def takeWhole (significand : Nat) : List Nat → Nat × Nat
  | [] => (significand, 0)
  | digit :: rest =>
    match push? significand digit with
    | some next => takeWhole next rest
    | none => (significand, rest.length + 1)

/-- Goes on with the digits after the point; the second part counts those that fit. -/
def takeFraction (significand : Nat) : List Nat → Nat × Nat
  | [] => (significand, 0)
  | digit :: rest =>
    match push? significand digit with
    | some next =>
      let (last, taken) := takeFraction next rest
      (last, taken + 1)
    | none => (significand, 0)

/-- The number that the digits of an exponent stand for; none beyond 31 bits. -/
def exponentValue? (digits : List Nat) : Option Nat :=
  let value := digits.foldl (fun n d => n * 10 + d) 0
  if value < 0x80000000 then some value else none

/-- The quotient `x / 10 ^ n`, in steps of at most `10 ^ 308`. -/
def divide (x : Float) (n : Nat) : Float :=
  if n ≤ 308 then x / Float.ofScientific 1 false n
  else if x == 0 then x
  else divide (x / Float.ofScientific 1 false 308) (n - 308)
termination_by n

/-- The value `significand * 10 ^ exponent` as a double; none if it is too large for one. -/
def scale? (significand : Nat) (exponent : Int) : Option Float :=
  let x := Float.ofNat significand
  if exponent < 0 then some (divide x (-exponent).toNat)
  else if exponent ≤ 308 then
    let y := x * Float.ofScientific 1 false exponent.toNat
    if y.isInf then none else some y
  else if significand = 0 then some x
  else none

def signed (negative : Bool) (x : Float) : Number :=
  .float (if negative then -x else x)

/-- An integer that fills at most 64 bits. Minus zero is a double. -/
def integer (negative : Bool) (significand : Nat) : Number :=
  if ¬negative then .int significand
  else if 0 < significand ∧ significand ≤ 0x8000000000000000 then .int (-significand)
  else signed true (Float.ofNat significand)

/-- The value of a numeral; none if it lies beyond the doubles. -/
def value? (n : Numeral) : Option Number :=
  let (whole, dropped) := takeWhole 0 n.whole
  match n.fraction, n.exponent, dropped with
  | none, none, 0 => some (integer n.negative whole)
  | _, _, _ =>
    let (significand, taken) := takeFraction whole (n.fraction.getD [])
    let point : Int := (dropped : Int) - taken
    match n.exponent with
    | none => (scale? significand point).map (signed n.negative)
    | some (below, digits) =>
      match exponentValue? digits with
      | some e =>
        -- exponents are kept in 32 bits
        let total := if below then max (-0x80000000) (point - e) else min 0x7fffffff (point + e)
        (scale? significand total).map (signed n.negative)
      | none =>
        if significand = 0 ∨ below then some (signed n.negative 0) else none

end Numeral

end Adf.Json
