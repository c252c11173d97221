/-
JSON values as YAML nodes.

Strings are quoted, so they are never taken for numbers or nulls. A member that is null counts as left out,
at every depth.
-/
import Fleet.Json.Value
import Fleet.Yaml.Decode

namespace Fleet.Yaml

def Node.ofText (s : String) : Node := .scalar s .double none

mutual

def Node.ofJson : Json → Node
  | .null => .scalar "null" .plain none
  | .bool b => .scalar (if b then "true" else "false") .plain none
  | .number spelling => .scalar spelling .plain none
  | .string s => .ofText (s.getD "")
  | .array items => .sequence (Node.ofItems items) none
  | .object members => .mapping (Node.ofMembers members) none

def Node.ofItems : List Json → List Node
  | [] => []
  | j :: rest => Node.ofJson j :: Node.ofItems rest

def Node.ofMembers : List (Option String × Json) → List (Node × Node)
  | [] => []
  | (_, .null) :: rest => Node.ofMembers rest
  | (k, j) :: rest => (.ofText (k.getD ""), Node.ofJson j) :: Node.ofMembers rest

end

/-- a typed value from JSON -/
def decodeJson {α : Type} (decoder : Decoder α) (j : Json) : Option α :=
  (decoder {} (.ofJson j)).run' 0

end Fleet.Yaml
