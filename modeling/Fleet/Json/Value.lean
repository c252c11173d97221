/-
JSON values and their compact text.

A string is kept as the text it spells; one whose escapes spell no Unicode text is kept as `none`, since
it may stand where its value does not matter. Numbers keep their spelling. Objects keep their members in
order, repeated names included.
-/
import Fleet.Text.Decimal
import Fleet.SortedMap

namespace Fleet

inductive Json where
  | null
  | bool (b : Bool)
  | number (spelling : String)
  | string (text : Option String)
  | array (items : List Json)
  | object (members : List (Option String × Json))
  deriving Inhabited

namespace Json

def text (s : String) : Json := .string (some s)

def nat (n : Nat) : Json := .number (toString n)

def int (n : Int) : Json := .number (toString n)

/-- the object with these members, in this order -/
def record (members : List (String × Json)) : Json :=
  .object (members.map fun m => (some m.1, m.2))

/-- a value, or null where there is none -/
def orNull {α : Type} (f : α → Json) : Option α → Json
  | some a => f a
  | none => .null

/-- an object from a map -/
def ofMap {α : Type} (f : α → Json) (m : SortedMap α) : Json :=
  record (m.entries.map fun e => (e.1, f e.2))

def texts (l : List String) : Json := .array (l.map text)

/-! ## Writing -/

/-- one character inside quotes: quotes, backslashes and controls below U+0020 are escaped -/
def escapeChar (c : Char) : List Char :=
  match c with
  | '"' => ['\\', '"']
  | '\\' => ['\\', '\\']
  | '\x08' => ['\\', 'b']
  | '\t' => ['\\', 't']
  | '\n' => ['\\', 'n']
  | '\x0c' => ['\\', 'f']
  | '\r' => ['\\', 'r']
  | c =>
    if c.toNat < 0x20 then
      ['\\', 'u', '0', '0', Text.hexDigit (c.toNat / 16), Text.hexDigit (c.toNat % 16)]
    else [c]

def quote (cs : List Char) : List Char := '"' :: (cs.flatMap escapeChar ++ ['"'])

/-- texts with commas between them -/
def separated : List (List Char) → List Char
  | [] => []
  | [x] => x
  | x :: y :: rest => x ++ ',' :: separated (y :: rest)

mutual

/-- the compact text of a value -/
def write : Json → List Char
  | .null => "null".toList
  | .bool b => if b then "true".toList else "false".toList
  | .number spelling => spelling.toList
  | .string s => quote (s.getD "").toList
  | .array items => '[' :: (separated (writeItems items) ++ [']'])
  | .object members => '\x7b' :: (separated (writeMembers members) ++ ['\x7d'])

def writeItems : List Json → List (List Char)
  | [] => []
  | j :: rest => write j :: writeItems rest

def writeMembers : List (Option String × Json) → List (List Char)
  | [] => []
  | (k, j) :: rest => (quote (k.getD "").toList ++ ':' :: write j) :: writeMembers rest

end

def compact (j : Json) : String := String.ofList (write j)

/-! ## Access -/

/-- the last member of a name -/
def member? (j : Json) (name : String) : Option Json :=
  match j with
  | .object members => (members.reverse.find? fun m => m.1 = some name).map Prod.snd
  | _ => none

def text? : Json → Option String
  | .string s => s
  | _ => none

end Json

end Fleet
