/-
Tags of YAML nodes.

A tag is written with `%xx` escapes for the octets of a character. Octets may have the shape of a character
and still spell none: a longer form than needed, a surrogate, a number beyond the last character. A tag with
such octets has no name; all that shows of it is whether it is local.
-/
import Fleet.Yaml.Scalar

namespace Fleet.Yaml

inductive Tag where
  | named (name : String)
  | unreadable (isLocal : Bool)
  deriving DecidableEq, Repr

/-- the characters of a tag, none for octets that spell no character -/
abbrev TagSpelling := List (Option Char)

namespace TagSpelling

def ofText (s : String) : TagSpelling := s.toList.map some

/-- `%xx` escapes: the octets of one character, and what follows -/
def escape? (cs : List Char) : Option (Option Char × List Char) := do
  let (first, rest) ← octet cs
  if first < 0x80 then some (charOf? first, rest)
  else if first / 32 = 6 then more 1 0x80 (first % 32) rest
  else if first / 16 = 14 then more 2 0x800 (first % 16) rest
  else if first / 8 = 30 then more 3 0x10000 (first % 8) rest
  else none
where
  octet : List Char → Option (Nat × List Char)
    | '%' :: a :: b :: rest => (Text.readNat? 16 [a, b]).map fun n => (n, rest)
    | _ => none
  /-- `least` is the least number that needs this many octets -/
  more (left least value : Nat) (rest : List Char) : Option (Option Char × List Char) :=
    match left with
    | 0 => some (if value < least then none else charOf? value, rest)
    | n + 1 => do
      let (o, rest) ← octet rest
      if o / 64 = 2 then more n least (value * 64 + o % 64) rest else none

/-- the characters of a tag, escapes read, and what follows; `fuel` bounds the characters left -/
def read (verbatim : Bool) : Nat → List Char → Option (TagSpelling × List Char)
  | 0, cs => some ([], cs)
  | fuel + 1, cs =>
    match cs with
    | '%' :: _ => match escape? cs with
      | some (c, rest) => (read verbatim fuel rest).map fun (t, r) => (c :: t, r)
      | none => none
    | c :: rest =>
      if isTagChar verbatim c then (read verbatim fuel rest).map fun (t, r) => (some c :: t, r)
      else some ([], cs)
    | [] => some ([], [])

/-- a tag ends before an escaped NUL -/
def beforeNul (t : TagSpelling) : TagSpelling := t.takeWhile (· ≠ some '\x00')

/-- a handle: `!`, or `!` with word characters and perhaps another `!` -/
def handle? : List Char → Option (List Char × List Char)
  | '!' :: rest =>
    let word := rest.takeWhile isWordChar
    match rest.dropWhile isWordChar with
    | '!' :: more => some ('!' :: (word ++ ['!']), more)
    | more => some ('!' :: word, more)
  | _ => none

end TagSpelling

namespace Tag

def ofSpelling (t : TagSpelling) : Tag :=
  if t.all Option.isSome then .named (String.ofList (t.filterMap id))
  else .unreadable (t.head? = some (some '!'))

/-- local tags start with `!` -/
def isLocal : Tag → Bool
  | .named name => name.toList.head? = some '!'
  | .unreadable b => b

/-- a name without a mark in front of it; a mark alone is a name -/
def withoutMark : List Char → List Char
  | '!' :: c :: rest => c :: rest
  | cs => cs

/-- what stands behind the mark of a local tag -/
def localName? : Tag → Option String
  | .named name =>
    if name.toList.head? = some '!' then some (String.ofList (withoutMark name.toList)) else none
  | .unreadable _ => none

/-! ## Tags of the standard -/

/-- what the names of the standard start with -/
def standardStem : String := "tag:yaml.org,2002:"

def standard (kind : String) : Tag := .named (standardStem ++ kind)

def null : Tag := standard "null"
def bool : Tag := standard "bool"
def int : Tag := standard "int"
def float : Tag := standard "float"

end Tag

end Fleet.Yaml
