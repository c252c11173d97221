/-
Decimal and hexadecimal numerals.

Reading is strict: a numeral is digits and, where signs are allowed, one sign in front.
-/

namespace Fleet.Text

/-- the value of a digit in a base up to sixteen -/
def digitValue? (base : Nat) (c : Char) : Option Nat :=
  let n := c.toNat
  let v :=
    if 48 ≤ n && n ≤ 57 then some (n - 48)
    else if 97 ≤ n && n ≤ 102 then some (n - 87)
    else if 65 ≤ n && n ≤ 70 then some (n - 55)
    else none
  v.filter (· < base)

/-- read digits onto a value -/
def digitsOnto (base : Nat) (value : Nat) : List Char → Option Nat
  | [] => some value
  | c :: rest => match digitValue? base c with
    | some d => digitsOnto base (value * base + d) rest
    | none => none

/-- a numeral of at least one digit and nothing else -/
def readNat? (base : Nat) (cs : List Char) : Option Nat :=
  if cs.isEmpty then none else digitsOnto base 0 cs

/-- a decimal numeral with at most one sign, within 64 bits -/
def readInt64? (s : String) : Option Int :=
  let limit : Int := Int.ofNat (Nat.pow 2 63)
  let value : Option Int := match s.toList with
    | '-' :: rest => (readNat? 10 rest).map fun n => -(n : Int)
    | '+' :: rest => (readNat? 10 rest).map fun n => (n : Int)
    | cs => (readNat? 10 cs).map fun n => (n : Int)
  value.filter fun v => -limit ≤ v && v < limit

/-- the character of a hexadecimal digit, letters in lower case -/
def hexDigit (n : Nat) : Char := Char.ofNat (if n < 10 then 48 + n else 87 + n)

/-- the character of a hexadecimal digit, letters in upper case -/
def upperHexDigit (n : Nat) : Char := Char.ofNat (if n < 10 then 48 + n else 55 + n)

end Fleet.Text
