/-
Decimal numbers, and how one is laid out as text.

A number is its digits and the power of ten of the last one. It is written with a point, and with an
exponent below 1e-5 and from 1e16 on; zeros at the end of the digits do not show.
-/
import Fleet.Text.Decimal

namespace Fleet.Number

/-- the number `digits · 10 ^ exponent` -/
structure Decimal where
  digits : Nat
  exponent : Int
  deriving DecidableEq, Repr

namespace Decimal

/-- digits with at most one point among them, then perhaps an exponent -/
def read? (cs : List Char) : Option Decimal :=
  let whole := cs.takeWhile Char.isDigit
  let (fraction, rest) := match cs.dropWhile Char.isDigit with
    | '.' :: r => (r.takeWhile Char.isDigit, r.dropWhile Char.isDigit)
    | r => ([], r)
  (Text.readNat? 10 (whole ++ fraction)).bind fun digits =>
    let number (e : Int) : Decimal := ⟨digits, e - fraction.length⟩
    match rest with
    | [] => some (number 0)
    | c :: r =>
      if c = 'e' || c = 'E' then
        match r with
        | '-' :: d => (Text.readNat? 10 d).map fun n => number (-(n : Int))
        | '+' :: d => (Text.readNat? 10 d).map fun n => number n
        | d => (Text.readNat? 10 d).map fun n => number n
      else none

/-- how many digits a positive number has before its point; without any, zeros behind the point count down -/
def magnitude (d : Decimal) : Int := (Nat.toDigits 10 d.digits).length + d.exponent

def zeros (n : Int) : List Char := List.replicate n.toNat '0'

def render (d : Decimal) : List Char :=
  let all := Nat.toDigits 10 d.digits
  let kept := (all.reverse.dropWhile (· = '0')).reverse
  let exponent : Int := d.exponent + (all.length - kept.length)
  let point : Int := kept.length + exponent
  match kept with
  | [] => ['0', '.', '0']
  | first :: rest =>
    if 0 ≤ exponent && point ≤ 16 then kept ++ zeros exponent ++ ['.', '0']
    else if 0 < point && point ≤ 16 then kept.take point.toNat ++ '.' :: kept.drop point.toNat
    else if -5 < point && point ≤ 0 then '0' :: '.' :: (zeros (-point) ++ kept)
    else
      first :: ((if rest.isEmpty then [] else '.' :: rest) ++ 'e' :: (toString (point - 1)).toList)

end Decimal

end Fleet.Number
