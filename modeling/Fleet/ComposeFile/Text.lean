/-
The text of a compose file, and putting it on disk.

Fields stand in the order of `fields`, which is also the order in which containers are read about; what is
empty is left out. The directory that receives the file is made anew, so nothing of an earlier run stays
behind.
-/
import Fleet.ComposeFile
import Fleet.Machine.Request
import Fleet.Yaml.Writer

namespace Fleet

open Yaml

namespace Build

def tree (b : Build) : Tree := .map [("context", .text b.context), ("dockerfile", .text b.dockerfile)]

end Build

namespace Container

def textField (name : String) (value : Option String) : List (String × Tree) :=
  value.toList.map fun v => (name, .text v)

def listField (name : String) (items : List String) : List (String × Tree) :=
  if items.isEmpty then [] else [(name, .list (items.map .text))]

def mapField (name : String) (vars : Variables) : List (String × Tree) :=
  if vars.isEmpty then [] else [(name, .map (vars.entries.map fun e => (e.1, .text e.2)))]

/-- the fields that are set, in order -/
def fields (c : Container) : List (String × Tree) :=
  (c.build.toList.map fun b => ("build", b.tree)) ++
  textField "image" c.image ++
  textField "container_name" c.name ++
  textField "command" c.command ++
  listField "ports" c.ports ++
  listField "volumes" c.volumes ++
  listField "links" c.links ++
  mapField "environment" c.environment ++
  listField "depends_on" c.dependsOn ++
  textField "restart" c.restart

end Container

namespace Composition

/-- the volumes, each once, in ascending order -/
def volumeNames (c : Composition) : List String :=
  (SortedMap.ofList (c.volumes.map fun v => (v, ()))).keys

def fileTree (c : Composition) : List (String × Tree) :=
  [("version", .text ComposeFile.formatVersion),
    ("services", .map (c.services.entries.map fun e => (e.1, .map e.2.fields)))] ++
  if c.volumes.isEmpty then [] else [("volumes", .map (c.volumeNames.map fun v => (v, .null)))]

/-- the composition's compose file, as text -/
def fileText (c : Composition) : String := Tree.document c.fileTree

open Machine

/-- write the compose file into a directory of its own, for the file's path -/
def store (c : Composition) (dir : String) : Program Fault String :=
  (Program.request (.isPresent dir)).bind fun present =>
    (if present then Program.removeDirectory dir else .done ()).bind fun _ =>
      (Program.makeDirectories dir).bind fun _ =>
        let path := Path.join dir ComposeFile.fileName
        (Program.writeFile path c.fileText).bind fun _ => .done path

end Composition

end Fleet
