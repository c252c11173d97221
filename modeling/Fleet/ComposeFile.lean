/-
The compose file: the containers of a composition and its volumes, each once.
-/
import Fleet.Container
import Fleet.Number.Binary64

namespace Fleet

/-- settings of a volume that something else wrote; this library never sets any -/
inductive VolumeSetting where
  | null
  | bool (b : Bool)
  | int (n : Int)
  | float (x : Number.Float64)
  | text (s : String)
  | list (items : List VolumeSetting)
  | map (entries : List (VolumeSetting × VolumeSetting))
  | tagged (tag : String) (value : VolumeSetting)
  deriving Inhabited

namespace VolumeSetting

mutual

/-- equal settings; the order of a map's entries does not count -/
def same : VolumeSetting → VolumeSetting → Bool
  | .null, .null => true
  | .bool a, .bool b => a = b
  | .int a, .int b => a = b
  | .float a, .float b => a.same b
  | .text a, .text b => a = b
  | .list a, .list b => sameItems a b
  | .map a, .map b => a.length = b.length && isWithin b a
  | .tagged s a, .tagged t b => s = t && same a b
  | _, _ => false

def sameItems : List VolumeSetting → List VolumeSetting → Bool
  | [], [] => true
  | a :: as, b :: bs => same a b && sameItems as bs
  | _, _ => false

/-- all entries of a map are among those of another one -/
def isWithin (all : List (VolumeSetting × VolumeSetting)) :
    List (VolumeSetting × VolumeSetting) → Bool
  | [] => true
  | (k, v) :: rest => all.any (fun e => same k e.1 && same v e.2) && isWithin all rest

end

end VolumeSetting

structure ComposeFile where
  version : String
  services : SortedMap Container
  volumes : SortedMap (Option VolumeSetting) := .empty

namespace ComposeFile

def fileName : String := "docker-compose.yml"

/-- the version of the file format that is written -/
def formatVersion : String := "3"

def ofComposition (c : Composition) : ComposeFile where
  version := formatVersion
  services := c.services
  volumes := .ofList (c.volumes.map fun v => (v, none))

end ComposeFile

end Fleet
