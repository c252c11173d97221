/-
Binary numbers of 64 bits.

A finite one is a mantissa below 2^53 times a power of two from 2^-1074 to 2^971. A decimal number becomes
the nearest of them, a half going to the even mantissa. Back it goes by the fewest digits that the number is
the nearest to; of two such decimals with as many digits the closer one is taken.
-/
import Fleet.Number.Decimal

namespace Fleet.Number

/-- the number `mantissa · 2 ^ exponent`. The mantissa has 53 bits, or the exponent is the least one -/
structure Binary64 where
  mantissa : Nat
  exponent : Int
  deriving DecidableEq, Repr

namespace Binary64

def leastExponent : Int := -1074

def greatestExponent : Int := 971

def zero : Binary64 := ⟨0, leastExponent⟩

/-! ## From decimals -/

/-- a base to the power of the positive part of an exponent -/
def power (base : Nat) (e : Int) : Nat := Nat.pow base e.toNat

/-- a quotient as a natural number, a half going to the even one -/
def roundDiv (num den : Nat) : Nat :=
  let q := num / den
  let twice := 2 * (num % den)
  if twice < den then q else if den < twice then q + 1 else q + q % 2

/-- the greatest power of two up to a positive ratio -/
def floorLog (num den : Nat) : Int :=
  let guess : Int := num.log2 - den.log2
  if den * power 2 guess ≤ num * power 2 (-guess) then guess else guess - 1

/-- the binary number next to a ratio; its exponent may be too great for 64 bits -/
def nearest (num den : Nat) : Binary64 :=
  if num = 0 then zero
  else
    let e := max (floorLog num den - 52) leastExponent
    let m := roundDiv (num * power 2 (-e)) (den * power 2 e)
    if m = Nat.pow 2 53 then ⟨Nat.pow 2 52, e + 1⟩ else ⟨m, e⟩

/-- the number next to a decimal one, unless that is too great -/
def ofDecimal? (d : Decimal) : Option Binary64 :=
  if d.digits = 0 || d.magnitude < -330 then some zero
  else if 310 < d.magnitude then none
  else
    let x := nearest (d.digits * power 10 d.exponent) (power 10 (-d.exponent))
    if x.exponent ≤ greatestExponent then some x else none

/-! ## To decimals -/

/-- `a · 10 ^ i` against `b · 2 ^ j` -/
def compareScaled (a : Nat) (i : Int) (b : Nat) (j : Int) : Ordering :=
  compare (a * power 10 i * power 2 (-j)) (b * power 2 j * power 10 (-i))

/-- the decimal lies among the numbers that `x` is the nearest to. They reach half-way to either neighbour,
and the one below a power of two is only half as far; an even mantissa has the ends too -/
def isNearestTo (x : Binary64) (d : Decimal) : Bool :=
  let narrow := x.mantissa = Nat.pow 2 52 && leastExponent < x.exponent
  let low := if narrow then 4 * x.mantissa - 1 else 4 * x.mantissa - 2
  let high := 4 * x.mantissa + 2
  let closed := x.mantissa % 2 = 0
  let above := compareScaled d.digits d.exponent low (x.exponent - 2)
  let below := compareScaled d.digits d.exponent high (x.exponent - 2)
  (above = .gt || (closed && above = .eq)) && (below = .lt || (closed && below = .eq))

/-- the least power of ten that a positive number lies below -/
def decimalMagnitude (x : Binary64) : Int :=
  let num := x.mantissa * power 2 x.exponent
  let den := power 2 (-x.exponent)
  if den ≤ num then (Nat.toDigits 10 (num / den)).length
  else 1 - ((Nat.toDigits 10 ((den - 1) / num)).length : Int)

/-- the decimal of this many digits that reads back, if there is one -/
def withDigits (x : Binary64) (n : Nat) : Option Decimal :=
  let e := x.decimalMagnitude - n
  let num := x.mantissa * power 2 x.exponent * power 10 (-e)
  let den := power 2 (-x.exponent) * power 10 e
  let down : Decimal := ⟨num / den, e⟩
  let up : Decimal := ⟨num / den + 1, e⟩
  match x.isNearestTo down, x.isNearestTo up with
  | true, true => some (if roundDiv num den = down.digits then down else up)
  | true, false => some down
  | false, true => some up
  | false, false => none

/-- the shortest decimal that reads back; seventeen digits always do -/
def shortest (x : Binary64) : Decimal :=
  if x.mantissa = 0 then ⟨0, 0⟩
  else
    (((List.range 17).map (· + 1)).findSome? x.withDigits).getD
      ⟨x.mantissa * power 2 x.exponent * power 5 (-x.exponent), min x.exponent 0⟩

end Binary64

/-- what 64 bits can hold as a number -/
inductive Float64 where
  | finite (negative : Bool) (size : Binary64)
  | infinite (negative : Bool)
  | notNumber
  deriving DecidableEq, Repr

namespace Float64

/-- equal as numbers: the sign of a zero does not count -/
def same : Float64 → Float64 → Bool
  | .finite s a, .finite t b => a = b && (s = t || a.mantissa = 0)
  | .infinite s, .infinite t => s = t
  | .notNumber, .notNumber => true
  | _, _ => false

/-- a number as text; there is none for the infinities and for what is no number -/
def render? : Float64 → Option String
  | .finite negative x =>
    some (String.ofList ((if negative then ['-'] else []) ++ x.shortest.render))
  | .infinite _ | .notNumber => none

end Float64

end Fleet.Number
