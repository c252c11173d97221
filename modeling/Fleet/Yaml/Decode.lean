/-
Typed values from YAML nodes.

A `Decoder` takes a node to a value or refuses it. Records and maps are never read from an explicit null, but
an empty plain scalar, which is what an omitted value looks like, stands for the empty record, map or list.
Unknown fields of a record are passed over unread; a known field may occur only once. In a map the last of
equal keys wins.

Following aliases costs: a document has an allowance in proportion to its size, and every alias that is
followed takes one off. Values that aliases blow up are refused in this way.
-/
import Fleet.SortedMap
import Fleet.Yaml.Node

namespace Fleet.Yaml

/-! ## The size of a document -/

mutual

/-- the marks that a node is made of: one for a scalar or an alias, a first and a last for a collection -/
def Node.size : Node → Nat
  | .scalar _ _ _ | .alias _ => 1
  | .sequence items _ => itemsSize items + 2
  | .mapping entries _ => entriesSize entries + 2

def Node.itemsSize : List Node → Nat
  | [] => 0
  | n :: rest => n.size + itemsSize rest

def Node.entriesSize : List (Node × Node) → Nat
  | [] => 0
  | (k, v) :: rest => k.size + v.size + entriesSize rest

end

/-- how many aliases may be followed while a document with this root is decoded -/
def Node.allowance (root : Node) : Nat := 100 * root.size

/-! ## Decoders -/

/-- a value or a refusal, out of an allowance of aliases -/
abbrev Reading := StateT Nat Option

abbrev Decoder (α : Type) := Document → Node → Reading α

namespace Decoder

variable {α : Type}

/-- take one alias off the allowance -/
def spend : Reading Unit := fun left =>
  match left with
  | 0 => none
  | n + 1 => some ((), n)

/-- the node itself, or the one that an alias stands for -/
def resolve (d : Document) : Node → Reading Node
  | .alias n => do
    spend
    d.target? n
  | n => pure n

/-- an omitted value -/
def isNothing : Node → Bool
  | .scalar text .plain _ => text = ""
  | _ => false

def isNullText (text : String) : Bool :=
  text = "~" || text = "null" || text = "Null" || text = "NULL"

/-- the text of a scalar, however it is written -/
def text : Decoder String := fun d n => do
  match ← resolve d n with
  | .scalar t _ _ => pure t
  | _ => failure

/-- unset for an omitted value or a plain null -/
def optional (inner : Decoder α) : Decoder (Option α) := fun d n => do
  let n ← resolve d n
  match n with
  | .scalar t .plain none =>
    if t = "" || isNullText t then pure none else some <$> inner d n
  | .scalar t .plain (some tag) =>
    if tag = Tag.null then if isNullText t then pure none else failure
    else some <$> inner d n
  | _ => some <$> inner d n

/-- every item in turn -/
def all (inner : Decoder α) (d : Document) : List Node → Reading (List α)
  | [] => pure []
  | n :: rest => do
    let a ← inner d n
    let as ← all inner d rest
    pure (a :: as)

def list (inner : Decoder α) : Decoder (List α) := fun d n => do
  match ← resolve d n with
  | .sequence items _ => all inner d items
  | n => if isNothing n then pure [] else failure

/-- every entry in turn -/
def entries {κ : Type} (key : Decoder κ) (inner : Decoder α) (d : Document) :
    List (Node × Node) → Reading (List (κ × α))
  | [] => pure []
  | (k, v) :: rest => do
    let k ← key d k
    let v ← inner d v
    let es ← entries key inner d rest
    pure ((k, v) :: es)

def map (inner : Decoder α) : Decoder (SortedMap α) := fun d n => do
  match ← resolve d n with
  | .mapping es _ => SortedMap.ofList <$> entries text inner d es
  | n => if isNothing n then pure .empty else failure

/-! ## Records -/

/-- the known fields of a record -/
structure Fields where
  document : Document
  nodes : List (String × Node)

/-- the nodes of the known fields; none if a key is no scalar or a known field occurs twice -/
def knownFields (d : Document) (known : List String) :
    List (Node × Node) → Reading (List (String × Node))
  | [] => pure []
  | (k, v) :: rest => do
    let name ← text d k
    let fields ← knownFields d known rest
    if !known.contains name then pure fields
    else if (fields.lookup name).isSome then failure
    else pure ((name, v) :: fields)

/-- a field's value, or a default if the field is absent -/
def Fields.get (f : Fields) (name : String) (inner : Decoder α) (absent : α) : Reading α :=
  match f.nodes.lookup name with
  | some n => inner f.document n
  | none => pure absent

def Fields.require (f : Fields) (name : String) (inner : Decoder α) : Reading α :=
  match f.nodes.lookup name with
  | some n => inner f.document n
  | none => failure

def record (known : List String) (build : Fields → Reading α) : Decoder α := fun d n => do
  match ← resolve d n with
  | .mapping es _ => knownFields d known es >>= fun nodes => build ⟨d, nodes⟩
  | n => if isNothing n then build ⟨d, []⟩ else failure

/-- one of some named values: the name as a scalar, or as a local tag on an omitted value or a null -/
def choice (values : List (String × α)) : Decoder α := fun d n => do
  match ← resolve d n with
  | .scalar t style tag =>
    match tag.bind Tag.localName? with
    | some name =>
      if style = .plain && (t = "" || isNullText t) then values.lookup name else failure
    | none => values.lookup t
  | _ => failure

/-! ## Numbers -/

/-- digits with a needless zero in front, which are text and no number -/
def isPaddedNumeral (cs : List Char) : Bool :=
  match cs with
  | '0' :: c :: rest => (c :: rest).all Char.isDigit
  | _ => false

/-- an optional `+`, then decimal digits, or `0x`, `0o`, `0b` and digits of that base -/
def unsigned? (text : String) : Option Nat :=
  let cs := match text.toList with
    | '+' :: rest => rest
    | cs => cs
  match cs with
  | '0' :: 'x' :: rest => Text.readNat? 16 rest
  | '0' :: 'o' :: rest => Text.readNat? 8 rest
  | '0' :: 'b' :: rest => Text.readNat? 2 rest
  | cs => if isPaddedNumeral cs then none else Text.readNat? 10 cs

/-- a whole number below a bound; only plain scalars and literal ones tagged as integers are numbers -/
def below (bound : Nat) : Decoder (Fin bound) := fun d n => do
  match ← resolve d n with
  | .scalar t style tag =>
    if style = .plain || (style = .literal && tag = some Tag.int) then
      match unsigned? t with
      | some n => if h : n < bound then pure ⟨n, h⟩ else failure
      | none => failure
    else failure
  | _ => failure

end Decoder

/-- the value of a text; a text without a document reads as an omitted value if the type has one -/
def decode {α : Type} (decoder : Decoder α) (text : String) : Option α := do
  let d ← Document.read text
  let root := d.root.getD .nothing
  (decoder d root).run' root.allowance

end Fleet.Yaml
