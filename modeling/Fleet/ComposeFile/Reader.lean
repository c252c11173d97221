/-
Compose files read from YAML.

Volumes may carry settings of any shape. They are kept as they mean: plain scalars are typed, mappings with
equal keys are refused, and local tags stay. Any other tag than those of the standard's null, truth values and
numbers makes a scalar a text, and says nothing about a collection.
-/
import Fleet.ComposeFile
import Fleet.Manifest.Reader
import Fleet.Yaml.Plain

namespace Fleet

open Yaml

namespace VolumeSetting

/-- a whole number; what needs more than 64 bits cannot be kept -/
def ofInt (n : Int) : Option VolumeSetting :=
  if -(Nat.pow 2 63 : Int) ≤ n && n < (Nat.pow 2 64 : Int) then some (.int n) else none

/-- a plain scalar without a tag, or with a local one -/
def ofPlain (text : String) : Option VolumeSetting :=
  match plainMeaning text with
  | .null => some .null
  | .bool b => some (.bool b)
  | .int n => ofInt n
  | .float x => some (.float x)
  | .text => some (.text text)

/-- a scalar whose tag is not local -/
def ofTagged (text : String) (tag : Tag) : Option VolumeSetting :=
  if tag = Tag.null then if Decoder.isNullText text then some .null else none
  else if tag = Tag.bool then
    match plainMeaning text with
    | .bool b => some (.bool b)
    | _ => none
  else if tag = Tag.int then
    match plainMeaning text with
    | .int n => ofInt n
    | _ => none
  else if tag = Tag.float then (PlainMeaning.float? text.toList).map .float
  else some (.text text)

def ofScalar (text : String) (style : ScalarStyle) (tag : Option Tag) : Option VolumeSetting :=
  match tag.filter fun t => !t.isLocal with
  | some tag => ofTagged text tag
  | none => if style = .plain then ofPlain text else some (.text text)

/-- the name that a local tag is kept under, without one more mark if it has any -/
def tagName? (tag : Tag) : Option String :=
  tag.localName?.map fun name => String.ofList (Tag.withoutMark name.toList)

/-- the local tag of a node stays around its value -/
def withTag (tag : Option Tag) (v : VolumeSetting) : VolumeSetting :=
  match tag.bind tagName? with
  | some name => .tagged name v
  | none => v

/-- the keys differ from one another -/
def hasDistinctKeys : List (VolumeSetting × VolumeSetting) → Bool
  | [] => true
  | (k, _) :: rest => !rest.any (fun e => same k e.1) && hasDistinctKeys rest

/-- settings whose collections hold what `inner` reads; without it there are only scalars -/
def around (inner : Option (Decoder VolumeSetting)) : Decoder VolumeSetting := fun d n => do
  match ← Decoder.resolve d n, inner with
  | .scalar s style tag, _ => withTag tag <$> ofScalar s style tag
  | .sequence items tag, some inner => (fun l => withTag tag (.list l)) <$> Decoder.all inner d items
  | .mapping entries tag, some inner => do
    let l ← Decoder.entries inner inner d entries
    if hasDistinctKeys l then pure (withTag tag (.map l)) else failure
  | _, _ => failure

/-- settings with collections nested up to a depth, aliases included -/
def nested : Nat → Decoder VolumeSetting
  | 0 => around none
  | depth + 1 => around (some (nested depth))

/-- how deep collections may be nested in settings -/
def maxDepth : Nat := 126

def decoder : Decoder VolumeSetting := nested maxDepth

end VolumeSetting

namespace ComposeFile

open Decoder

def decoder : Yaml.Decoder ComposeFile :=
  record ["version", "services", "volumes"] fun f => do
    pure {
      version := ← f.require "version" text
      services := ← f.require "services" (map Manifest.container)
      volumes := ← f.get "volumes" (map (optional VolumeSetting.decoder)) .empty }

/-- the compose file that a text spells -/
def read (text : String) : Option ComposeFile := decode decoder text

end ComposeFile

end Fleet
