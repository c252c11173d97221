/-
What an unquoted scalar means: null, a truth value, a number, or just text.

The writer uses this to decide which texts need quotes, the reader of free-form values to give them a type.
-/
import Fleet.Number.Binary64
import Fleet.Yaml.Decode

namespace Fleet.Yaml

open Number

inductive PlainMeaning where
  | null
  | bool (b : Bool)
  | int (n : Int)
  | float (x : Float64)
  | text
  deriving DecidableEq, Repr

namespace PlainMeaning

/-- numerals are read up to 128 bits -/
def int? (cs : List Char) : Option Int :=
  match unsignedBelow (Nat.pow 2 128) with
  | some n => some n
  | none => match cs with
    | '-' :: '0' :: 'x' :: rest => negative 16 rest
    | '-' :: '0' :: 'o' :: rest => negative 8 rest
    | '-' :: '0' :: 'b' :: rest => negative 2 rest
    | '-' :: rest => if Decoder.isPaddedNumeral rest then none else negative 10 rest
    | _ => none
where
  unsignedBelow (bound : Nat) : Option Nat := (Decoder.unsigned? (String.ofList cs)).filter (· < bound)
  negative (base : Nat) (digits : List Char) : Option Int :=
    ((Text.readNat? base digits).filter (· ≤ Nat.pow 2 127)).map fun n => -(n : Int)

/-- a decimal number or an infinity, behind its sign -/
def unsignedFloat? (negative : Bool) (cs : List Char) : Option Float64 :=
  if [".inf".toList, ".Inf".toList, ".INF".toList].contains cs then some (.infinite negative)
  else ((Decimal.read? cs).bind Binary64.ofDecimal?).map (.finite negative)

/-- a number with a point or an exponent, or a whole one in decimal -/
def float? (cs : List Char) : Option Float64 :=
  match cs with
  | '+' :: rest => unsignedFloat? false rest
  | '-' :: rest => unsignedFloat? true rest
  | _ =>
    if [".nan".toList, ".NaN".toList, ".NAN".toList].contains cs then some .notNumber
    else unsignedFloat? false cs

end PlainMeaning

/-- digits with a needless zero in front, with or without a sign -/
def isPaddedText (cs : List Char) : Bool :=
  match cs with
  | '+' :: rest => Decoder.isPaddedNumeral rest
  | '-' :: rest => Decoder.isPaddedNumeral rest
  | cs => Decoder.isPaddedNumeral cs

def plainMeaning (s : String) : PlainMeaning :=
  let cs := s.toList
  if s = "" || Decoder.isNullText s then .null
  else if s = "true" || s = "True" || s = "TRUE" then .bool true
  else if s = "false" || s = "False" || s = "FALSE" then .bool false
  else match PlainMeaning.int? cs with
    | some n => .int n
    | none => if isPaddedText cs then .text else ((PlainMeaning.float? cs).map .float).getD .text

end Fleet.Yaml
