/-
Compose files read back.

A record is written as the list of its fields, those that are empty left out, and each `parts` below is that list with
the empty ones kept as holes. What a reader then finds under a name is the part of that name, so that every field reads
as it was or, if it was left out, as empty.
- `Build.decodes`, `Container.decodes`: builds and containers read back.
- `Composition.read_fileText`: **a composition's compose file reads back**, whatever its names and texts are.
-/
import Fleet.ComposeFile.Reader
import Fleet.ComposeFile.Text
import Fleet.Proofs.Yaml.Decode

namespace Fleet

open Yaml Yaml.Decoder

variable {fields : List (String × Option Tree)} {name : String}

/-! ## Fields -/

theorem get_text {value : Option String} (hnodup : (fields.map Prod.fst).Nodup)
    (hmem : (name, value.map Yaml.Tree.text) ∈ fields) (d : Document) :
    (fieldsOf fields d).get name (optional text) none = pure value := by
  cases value with
  | none => exact get_none hnodup hmem d
  | some s => exact get_some hnodup hmem (decodes_optional_text s) d

/-- a list that is left out if it is empty -/
def listPart (items : List String) : Option Tree := if items.isEmpty then none else some (.list (items.map .text))

theorem get_texts {items : List String} (hnodup : (fields.map Prod.fst).Nodup) (hmem : (name, listPart items) ∈ fields)
    (d : Document) : (fieldsOf fields d).get name Manifest.texts [] = pure items := by
  cases items with
  | nil => exact get_none hnodup hmem d
  | cons s items =>
    have hread := @decodes_list _ _ text Yaml.Tree.text id (s :: items) fun s _ => decodes_text s _ _
    rw [List.map_id] at hread
    exact get_some hnodup hmem hread d

/-- a map that is left out if it is empty -/
def mapPart (vars : Variables) : Option Tree :=
  if vars.isEmpty then none else some (.map (vars.entries.map fun e => (e.1, .text e.2)))

theorem get_environment {vars : Variables} (hnodup : (fields.map Prod.fst).Nodup) (hmem : (name, mapPart vars) ∈ fields)
    (d : Document) : (fieldsOf fields d).get name Manifest.environment .empty = pure vars := by
  rw [mapPart] at hmem
  split at hmem
  · rename_i hempty
    rw [SortedMap.eq_empty_of_isEmpty hempty]
    exact get_none hnodup hmem d
  · have hread := @decodes_map _ _ text Yaml.Tree.text id vars.entries fun e _ => decodes_text e.2 _ _
    have hvars : SortedMap.ofList (vars.entries.map fun e => (e.1, id e.2)) = vars := by
      simp [SortedMap.ofList_entries]
    rw [hvars] at hread
    exact get_some hnodup hmem hread d

namespace Build

def parts (b : Build) : List (String × Option Tree) :=
  [("context", some (.text b.context)), ("dockerfile", some (.text b.dockerfile))]

theorem decodes (b : Build) : Decodes Manifest.build b.tree.node b := by
  have hnames : ["context", "dockerfile"].Nodup := by decide
  have hnodup : (b.parts.map Prod.fst).Nodup := hnames
  refine @decodes_record _ b b.parts _ ["context", "dockerfile"] rfl hnames fun d => ?_
  have hcontext : (fieldsOf b.parts d).require "context" text = pure b.context :=
    require_some hnodup List.mem_cons_self (decodes_text b.context _ _) d
  have hdockerfile : (fieldsOf b.parts d).require "dockerfile" text = pure b.dockerfile :=
    require_some hnodup (List.mem_cons_of_mem _ List.mem_cons_self) (decodes_text b.dockerfile _ _) d
  rw [hcontext, hdockerfile]
  rfl

end Build

theorem get_build {value : Option Build} (hnodup : (fields.map Prod.fst).Nodup)
    (hmem : (name, value.map Build.tree) ∈ fields) (d : Document) :
    (fieldsOf fields d).get name (optional Manifest.build) none = pure value := by
  cases value with
  | none => exact get_none hnodup hmem d
  | some b => exact get_some hnodup hmem (decodes_optional_map b.decodes) d

/-! ## Containers -/

namespace Container

/-- the fields in order, the empty ones included -/
def parts (c : Container) : List (String × Option Tree) :=
  [("build", c.build.map Build.tree), ("image", c.image.map .text), ("container_name", c.name.map .text),
    ("command", c.command.map .text), ("ports", listPart c.ports), ("volumes", listPart c.volumes),
    ("links", listPart c.links), ("environment", mapPart c.environment), ("depends_on", listPart c.dependsOn),
    ("restart", c.restart.map .text)]

theorem textField_eq (name : String) (value : Option String) :
    textField name value = ((value.map Yaml.Tree.text).toList.map fun t => (name, t)) := by
  cases value <;> rfl

theorem listField_eq (name : String) (items : List String) :
    listField name items = ((listPart items).toList.map fun t => (name, t)) := by
  rw [listField, listPart]
  split <;> rfl

theorem mapField_eq (name : String) (vars : Variables) :
    mapField name vars = ((mapPart vars).toList.map fun t => (name, t)) := by
  rw [mapField, mapPart]
  split <;> rfl

theorem fields_eq (c : Container) : c.fields = given c.parts := by
  have hbuild : (c.build.toList.map fun b => ("build", b.tree)) =
      ((c.build.map Build.tree).toList.map fun t => ("build", t)) := by
    cases c.build <;> rfl
  have hnil : given [] = [] := rfl
  simp only [fields, parts, given_cons, hbuild, textField_eq, listField_eq, mapField_eq, List.append_assoc, hnil,
    List.append_nil]

/-- **A container reads back.** -/
theorem decodes (c : Container) : Decodes Manifest.container (Yaml.Tree.map c.fields).node c := by
  have hnames : ["build", "image", "container_name", "command", "ports", "volumes", "links", "environment",
      "depends_on", "restart"].Nodup := by decide
  have hnodup : (c.parts.map Prod.fst).Nodup := hnames
  rw [fields_eq]
  refine decodes_record _ rfl hnames fun d => ?_
  have htext (name : String) (value : Option String) (hmem : (name, value.map Yaml.Tree.text) ∈ c.parts) :=
    get_text hnodup hmem d
  have htexts (name : String) (items : List String) (hmem : (name, listPart items) ∈ c.parts) := get_texts hnodup hmem d
  rw [@get_build c.parts "build" c.build hnodup (by simp [parts]), htext "image" c.image (by simp [parts]),
    htext "container_name" c.name (by simp [parts]), htext "command" c.command (by simp [parts]),
    htexts "ports" c.ports (by simp [parts]), htexts "volumes" c.volumes (by simp [parts]),
    htexts "links" c.links (by simp [parts]),
    @get_environment c.parts "environment" c.environment hnodup (by simp [parts]),
    htexts "depends_on" c.dependsOn (by simp [parts]), htext "restart" c.restart (by simp [parts])]
  rfl

end Container

/-! ## Compositions -/

namespace Composition

def parts (c : Composition) : List (String × Option Tree) :=
  [("version", some (.text ComposeFile.formatVersion)),
    ("services", some (.map (c.services.entries.map fun e => (e.1, .map e.2.fields)))),
    ("volumes", if c.volumes.isEmpty then none else some (.map (c.volumeNames.map fun v => (v, .null))))]

theorem fileTree_eq (c : Composition) : c.fileTree = given c.parts := by
  rw [fileTree, parts]
  split <;> rfl

theorem mem_volumeNames_iff {c : Composition} {v : String} : v ∈ c.volumeNames ↔ v ∈ c.volumes := by
  rw [volumeNames, SortedMap.mem_keys_ofList_iff]
  simp

theorem decodes (c : Composition) : Decodes ComposeFile.decoder (Yaml.Tree.map c.fileTree).node (.ofComposition c) := by
  have hnames : ["version", "services", "volumes"].Nodup := by decide
  have hnodup : (c.parts.map Prod.fst).Nodup := hnames
  rw [fileTree_eq]
  refine decodes_record _ rfl hnames fun d => ?_
  have hversion : (fieldsOf c.parts d).require "version" text = pure ComposeFile.formatVersion :=
    require_some hnodup List.mem_cons_self (decodes_text ComposeFile.formatVersion _ _) d
  have hservices : (fieldsOf c.parts d).require "services" (map Manifest.container) = pure c.services := by
    have hread := @decodes_map _ _ Manifest.container
      (fun s : Container => Yaml.Tree.map s.fields) id c.services.entries
      fun e _ => e.2.decodes
    have hsame : SortedMap.ofList (c.services.entries.map fun e => (e.1, id e.2)) = c.services := by
      simp [SortedMap.ofList_entries]
    rw [hsame] at hread
    exact require_some hnodup (by simp [parts]) hread d
  have hvolumes : (fieldsOf c.parts d).get "volumes" (map (optional VolumeSetting.decoder)) .empty =
      pure (SortedMap.ofList (c.volumes.map fun v => (v, none))) := by
    by_cases hempty : c.volumes = []
    · rw [hempty]
      exact get_none hnodup (by simp [parts, hempty]) d
    · have hread := @decodes_map _ Unit (optional VolumeSetting.decoder) (fun _ => .null) (fun _ => none)
        (c.volumeNames.map fun v => (v, ())) fun _ _ => decodes_optional_null _
      rw [List.map_map, List.map_map] at hread
      rw [← SortedMap.ofList_blank (fun _ => mem_volumeNames_iff) none]
      exact get_some hnodup (by simp [parts, hempty]) hread d
  rw [hversion, hservices, hvolumes]
  rfl

/-- **The compose file of a composition reads back**, whatever its names and texts are. -/
theorem read_fileText (c : Composition) : ComposeFile.read c.fileText = some (.ofComposition c) := by
  refine decode_document ?_ c.decodes
  rw [fileTree]
  simp

end Composition

end Fleet
