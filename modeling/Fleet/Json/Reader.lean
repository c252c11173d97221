/-
Reading JSON text.

The reader takes exactly the JSON grammar: no comments, no trailing commas, no leading zeros, no control
characters inside strings, and nothing but blanks after the value. Escapes of surrogates count only in
pairs; a string with a lone one spells no text.
-/
import Fleet.Json.Value

namespace Fleet.Json

def isSpace (c : Char) : Bool := c = ' ' || c = '\t' || c = '\n' || c = '\r'

def skipSpaces (cs : List Char) : List Char := cs.dropWhile isSpace

/-- four hexadecimal digits -/
def hex4? (a b c d : Char) : Option Nat := Text.readNat? 16 [a, b, c, d]

def isHighSurrogate (n : Nat) : Bool := 0xD800 ≤ n && n < 0xDC00

def isLowSurrogate (n : Nat) : Bool := 0xDC00 ≤ n && n < 0xE000

/-- the character that a one-letter escape stands for -/
def shortEscape? : Char → Option Char
  | '"' => some '"'
  | '\\' => some '\\'
  | '/' => some '/'
  | 'b' => some '\x08'
  | 'f' => some '\x0c'
  | 'n' => some '\n'
  | 'r' => some '\r'
  | 't' => some '\t'
  | _ => none

/-- a string being read: its characters in reverse, whether it still spells text, and a high surrogate
waiting for its partner -/
structure Spelling where
  chars : List Char := []
  valid : Bool := true
  high : Option Nat := none

namespace Spelling

def push (s : Spelling) (c : Char) : Spelling :=
  ⟨c :: s.chars, s.valid && s.high.isNone, none⟩

/-- take in the number of a `\u` escape -/
def pushUnit (s : Spelling) (n : Nat) : Spelling :=
  match s.high with
  | some h =>
    if isLowSurrogate n then
      ⟨Char.ofNat (0x10000 + (h - 0xD800) * 0x400 + (n - 0xDC00)) :: s.chars, s.valid, none⟩
    else ⟨s.chars, false, none⟩
  | none =>
    if isHighSurrogate n then { s with high := some n }
    else if isLowSurrogate n then { s with valid := false }
    else s.push (Char.ofNat n)

def result (s : Spelling) : Option String :=
  if s.valid && s.high.isNone then some (String.ofList s.chars.reverse) else none

end Spelling

/-- the rest of a string after its opening quote -/
def readString (s : Spelling) : List Char → Option (Option String × List Char)
  | [] => none
  | '"' :: rest => some (s.result, rest)
  | '\\' :: 'u' :: a :: b :: c :: d :: rest =>
    match hex4? a b c d with
    | some n => readString (s.pushUnit n) rest
    | none => none
  | '\\' :: e :: rest =>
    match shortEscape? e with
    | some c => readString (s.push c) rest
    | none => none
  | c :: rest => if c.toNat < 0x20 || c = '\\' then none else readString (s.push c) rest

def isDigit (c : Char) : Bool := c.isDigit

/-- one digit or more -/
def readDigits (cs : List Char) : Option (List Char × List Char) :=
  let digits := cs.takeWhile isDigit
  if digits.isEmpty then none else some (digits, cs.dropWhile isDigit)

/-- the whole part of a number: zero alone, or digits that start with another -/
def readWhole : List Char → Option (List Char × List Char)
  | '0' :: rest => some (['0'], rest)
  | cs => readDigits cs

def readFraction : List Char → Option (List Char × List Char)
  | '.' :: rest => (readDigits rest).map fun (d, r) => ('.' :: d, r)
  | cs => some ([], cs)

def readExponent : List Char → Option (List Char × List Char)
  | e :: rest =>
    if e = 'e' || e = 'E' then
      match rest with
      | '+' :: r => (readDigits r).map fun (d, r) => (e :: '+' :: d, r)
      | '-' :: r => (readDigits r).map fun (d, r) => (e :: '-' :: d, r)
      | r => (readDigits r).map fun (d, r) => (e :: d, r)
    else some ([], e :: rest)
  | [] => some ([], [])

/-- a number without its sign, and what follows it -/
def readMagnitude (cs : List Char) : Option (List Char × List Char) :=
  match readWhole cs with
  | none => none
  | some (w, r) =>
    if (r.head?.map isDigit).getD false then none
    else match readFraction r with
      | none => none
      | some (f, r) => (readExponent r).map fun (e, r) => (w ++ f ++ e, r)

def readNumber : List Char → Option (Json × List Char)
  | '-' :: rest => (readMagnitude rest).map fun (t, r) => (.number (String.ofList ('-' :: t)), r)
  | cs => (readMagnitude cs).map fun (t, r) => (.number (String.ofList t), r)

mutual

/-- a value at the head of the text; `fuel` bounds the characters left -/
def readValue : Nat → List Char → Option (Json × List Char)
  | 0, _ => none
  | fuel + 1, cs =>
    match skipSpaces cs with
    | 'n' :: 'u' :: 'l' :: 'l' :: rest => some (.null, rest)
    | 't' :: 'r' :: 'u' :: 'e' :: rest => some (.bool true, rest)
    | 'f' :: 'a' :: 'l' :: 's' :: 'e' :: rest => some (.bool false, rest)
    | '"' :: rest => (readString {} rest).map fun (s, r) => (.string s, r)
    | '[' :: rest =>
      match skipSpaces rest with
      | ']' :: r => some (.array [], r)
      | r => (readItems fuel r).map fun (items, r) => (.array items, r)
    | '\x7b' :: rest =>
      match skipSpaces rest with
      | '\x7d' :: r => some (.object [], r)
      | r => (readMembers fuel r).map fun (members, r) => (.object members, r)
    | cs => readNumber cs

/-- the items of an array up to its bracket, at least one -/
def readItems : Nat → List Char → Option (List Json × List Char)
  | 0, _ => none
  | fuel + 1, cs =>
    match readValue fuel cs with
    | none => none
    | some (item, r) =>
      match skipSpaces r with
      | ']' :: r => some ([item], r)
      | ',' :: r => (readItems fuel r).map fun (items, r) => (item :: items, r)
      | _ => none

/-- the members of an object up to its brace, at least one -/
def readMembers : Nat → List Char → Option (List (Option String × Json) × List Char)
  | 0, _ => none
  | fuel + 1, cs =>
    match skipSpaces cs with
    | '"' :: r =>
      match readString {} r with
      | none => none
      | some (name, r) =>
        match skipSpaces r with
        | ':' :: r =>
          match readValue fuel r with
          | none => none
          | some (value, r) =>
            match skipSpaces r with
            | '\x7d' :: r => some ([(name, value)], r)
            | ',' :: r =>
              (readMembers fuel r).map fun (members, r) => ((name, value) :: members, r)
            | _ => none
        | _ => none
    | _ => none

end

/-- the value that a whole text spells -/
def parse (s : String) : Option Json :=
  let cs := s.toList
  match readValue (2 * cs.length + 2) cs with
  | some (j, rest) => if (skipSpaces rest).isEmpty then some j else none
  | none => none

end Fleet.Json
