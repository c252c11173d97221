/-
Texts and octets.

Octets that are UTF-8 are read as they stand. Where output of other programs has to be shown whatever it
is, each longest part that starts a character but does not finish it, and each octet that starts none,
becomes one U+FFFD.
-/

namespace Fleet.Text

/-- the text that octets spell in UTF-8 -/
def ofOctets? (bytes : ByteArray) : Option String := String.fromUTF8? bytes

/-- how many octets follow a first octet, and which range the second has to lie in -/
def lead? (b : Nat) : Option (Nat × Nat × Nat) :=
  if 0xC2 ≤ b && b ≤ 0xDF then some (1, 0x80, 0xBF)
  else if b = 0xE0 then some (2, 0xA0, 0xBF)
  else if b = 0xED then some (2, 0x80, 0x9F)
  else if 0xE1 ≤ b && b ≤ 0xEF then some (2, 0x80, 0xBF)
  else if b = 0xF0 then some (3, 0x90, 0xBF)
  else if 0xF1 ≤ b && b ≤ 0xF3 then some (3, 0x80, 0xBF)
  else if b = 0xF4 then some (3, 0x80, 0x8F)
  else none

/-- a character that has begun: its value so far, how many octets it still needs, and the range of the next -/
structure Begun where
  value : Nat
  left : Nat
  low : Nat
  high : Nat

/-- start a character with this octet -/
def begin (b : Nat) : Char ⊕ Begun :=
  if b < 0x80 then .inl (Char.ofNat b)
  else match lead? b with
    | some (1, low, high) => .inr ⟨b % 32, 1, low, high⟩
    | some (2, low, high) => .inr ⟨b % 16, 2, low, high⟩
    | some (n, low, high) => .inr ⟨b % 8, n, low, high⟩
    | none => .inl '\ufffd'

def readOctets (begun : Option Begun) : List UInt8 → List Char
  | [] => if begun.isSome then ['\ufffd'] else []
  | b :: rest =>
    let n := b.toNat
    match begun with
    | some s =>
      if s.low ≤ n && n ≤ s.high then
        let value := s.value * 64 + n % 64
        if s.left ≤ 1 then Char.ofNat value :: readOctets none rest
        else readOctets (some ⟨value, s.left - 1, 0x80, 0xBF⟩) rest
      else
        '\ufffd' :: match begin n with
          | .inl c => c :: readOctets none rest
          | .inr s => readOctets (some s) rest
    | none =>
      match begin n with
      | .inl c => c :: readOctets none rest
      | .inr s => readOctets (some s) rest

/-- a text for any octets -/
def ofOctetsLossy (bytes : ByteArray) : String := String.ofList (readOctets none bytes.toList)

/-! ## Lines of output -/

/-- the parts before each line feed, and what is left after the last one; `line` is in reverse -/
def splitOctets (line : List UInt8) : List UInt8 → List (List UInt8) × List UInt8
  | [] => ([], line.reverse)
  | b :: rest =>
    if b = 0x0A then
      let (lines, last) := splitOctets [] rest
      (line.reverse :: lines, last)
    else splitOctets (b :: line) rest

/-- octets without one carriage return at their end -/
def dropReturnOctet (line : List UInt8) : List UInt8 :=
  if line.getLast? = some 0x0D then line.dropLast else line

/-- the texts of some octets, up to the first that is no UTF-8 -/
def textsOf : List (List UInt8) → List String
  | [] => []
  | line :: rest =>
    match ofOctets? ⟨line.toArray⟩ with
    | some s => s :: textsOf rest
    | none => []

/-- the lines of output, up to the first that is no UTF-8 -/
def linesOfOctets (bytes : ByteArray) : List String :=
  let (full, last) := splitOctets [] bytes.toList
  textsOf (full.map dropReturnOctet ++ if last.isEmpty then [] else [last])

end Fleet.Text
