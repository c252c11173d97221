/-
Decoders on what is written.

A written tree has no aliases, so that a decoder never has to follow one: it gives a value and takes nothing off the
allowance (`Decodes`). For each decoder, one lemma says what it makes of the node that spells a value.
- `decodes_text`, `decodes_optional_text`: a text stays what it is, and is never taken for one that is left out.
- `decodes_list`, `decodes_map`: lists and maps go item by item.
- `decodes_record`: in a record each known field is found by its name, and what is left out is not there (`get_some`,
  `get_none`).
-/
import Fleet.Proofs.SortedMap
import Fleet.Proofs.Yaml.Node
import Fleet.Yaml.Decode

namespace Fleet.Yaml

open Writer

variable {α β : Type} {dec : Decoder α} {n : Node} {a : α} {d : Document}

/-- the decoder gives this value, whatever else is in the document, and follows no alias -/
def Decodes (dec : Decoder α) (n : Node) (a : α) : Prop := ∀ d, dec d n = pure a

namespace Tree

theorem itemNodes_eq (items : List Tree) : itemNodes items = items.map node := by
  induction items with
  | nil => rw [itemNodes, List.map_nil]
  | cons item items ih => rw [itemNodes, ih, List.map_cons]

theorem entryNodes_eq (entries : List (String × Tree)) :
    entryNodes entries = entries.map fun e => (.scalar e.1 (style e.1) none, e.2.node) := by
  induction entries with
  | nil => rw [entryNodes, List.map_nil]
  | cons e entries ih =>
    obtain ⟨k, v⟩ := e
    rw [entryNodes, ih, List.map_cons]

end Tree

namespace Decoder

/-! ## Scalars -/

theorem decodes_text (s : String) (way : ScalarStyle) (tag : Option Tag) : Decodes text (.scalar s way tag) s :=
  fun _ => rfl

theorem plainMeaning_of_isNullText {s : String} (h : isNullText s = true) : plainMeaning s = .null := by
  simp only [isNullText, Bool.or_eq_true, decide_eq_true_eq] at h
  rcases h with ((rfl | rfl) | rfl) | rfl <;> decide +kernel

/-- a text that is written plain looks neither empty nor like a null -/
theorem isNullText_of_plain {s : String} (h : style s = .plain) : s ≠ "" ∧ isNullText s = false := by
  have hsuits := suits_style s
  rw [h] at hsuits
  cases hsuits with
  | plain hplain hmeaning =>
    refine ⟨?_, ?_⟩
    · rintro rfl
      cases hplain
    · rw [← Bool.not_eq_true]
      intro hnull
      rw [plainMeaning_of_isNullText hnull] at hmeaning
      cases hmeaning

/-- a text is set, even if it looks like nothing -/
theorem decodes_optional_text (s : String) : Decodes (optional text) (Tree.text s).node (some s) := by
  intro d
  rw [Tree.node]
  cases hstyle : style s with
  | plain =>
    obtain ⟨hne, hnull⟩ := isNullText_of_plain hstyle
    simp only [optional, resolve, pure_bind, hne, hnull, decide_false, Bool.or_false, Bool.false_eq_true, if_false]
    rfl
  | single => rfl
  | double => rfl
  | literal => rfl
  | folded => rfl

theorem decodes_optional_null (dec : Decoder α) : Decodes (optional dec) Tree.null.node none := fun _ => rfl

theorem decodes_optional_map {entries : List (String × Tree)} (h : Decodes dec (Tree.map entries).node a) :
    Decodes (optional dec) (Tree.map entries).node (some a) := by
  intro d
  have hread := h d
  rw [Tree.node] at hread ⊢
  simp only [optional, resolve, pure_bind, hread, map_pure]

/-! ## Lists and maps -/

theorem all_eq {f : β → Node} {g : β → α} {items : List β} (h : ∀ b ∈ items, Decodes dec (f b) (g b)) (d : Document) :
    all dec d (items.map f) = pure (items.map g) := by
  induction items with
  | nil => rfl
  | cons b items ih =>
    have hrest := ih fun c hc => h c (List.mem_cons_of_mem _ hc)
    rw [List.map_cons, all, h b List.mem_cons_self d, hrest]
    rfl

theorem decodes_list {f : β → Tree} {g : β → α} {items : List β} (h : ∀ b ∈ items, Decodes dec (f b).node (g b)) :
    Decodes (list dec) (Tree.list (items.map f)).node (items.map g) := by
  intro d
  rw [Tree.node, Tree.itemNodes_eq, List.map_map]
  exact all_eq h d

theorem decodes_map {f : β → Tree} {g : β → α} {es : List (String × β)}
    (h : ∀ e ∈ es, Decodes dec (f e.2).node (g e.2)) :
    Decodes (map dec) (Tree.map (es.map fun e => (e.1, f e.2))).node (.ofList (es.map fun e => (e.1, g e.2))) := by
  intro d
  have hentries : entries text dec d ((es.map fun e => (e.1, f e.2)).map fun e =>
      (.scalar e.1 (style e.1) none, e.2.node)) = pure (es.map fun e => (e.1, g e.2)) := by
    induction es with
    | nil => rfl
    | cons e es ih =>
      have hrest := ih fun x hx => h x (List.mem_cons_of_mem _ hx)
      rw [List.map_cons, List.map_cons, entries, decodes_text, h e List.mem_cons_self, hrest]
      rfl
  rw [Tree.node, Tree.entryNodes_eq]
  exact congrArg (SortedMap.ofList <$> ·) hentries

/-! ## Records -/

/-- the fields that are set -/
def given (parts : List (String × Option Tree)) : List (String × Tree) :=
  parts.filterMap fun p => p.2.map fun t => (p.1, t)

theorem given_cons (name : String) (t : Option Tree) (parts : List (String × Option Tree)) :
    given ((name, t) :: parts) = (t.toList.map fun t => (name, t)) ++ given parts := by
  cases t <;> rfl

theorem names_given (parts : List (String × Option Tree)) :
    ((given parts).map Prod.fst).Sublist (parts.map Prod.fst) := by
  induction parts with
  | nil => exact List.Sublist.refl _
  | cons p parts ih =>
    obtain ⟨name, t⟩ := p
    rw [given_cons]
    cases t with
    | none => exact ih.cons _
    | some t => exact ih.cons_cons _

theorem lookup_eq_none {l : List (String × β)} {name : String} (h : name ∉ l.map Prod.fst) : l.lookup name = none := by
  rw [List.lookup_eq_none_iff]
  intro e he
  rw [bne_iff_ne]
  rintro rfl
  exact h (List.mem_map_of_mem he)

/-- of the fields that are set, each is found, and of the others none -/
theorem lookup_given {parts : List (String × Option Tree)} (hnodup : (parts.map Prod.fst).Nodup) {name : String}
    {t : Option Tree} (hmem : (name, t) ∈ parts) : (given parts).lookup name = t := by
  induction parts with
  | nil => cases hmem
  | cons p parts ih =>
    obtain ⟨name', t'⟩ := p
    obtain ⟨hfresh, hrest⟩ := List.nodup_cons.1 hnodup
    rw [given_cons]
    rcases List.mem_cons.1 hmem with heq | hlater
    · cases heq
      cases t with
      | none => exact lookup_eq_none fun h => hfresh ((names_given parts).subset h)
      | some t => simp
    · have hne : (name == name') = false := by
        rw [beq_eq_false_iff_ne]
        rintro rfl
        exact hfresh (List.mem_map.2 ⟨_, hlater, rfl⟩)
      cases t' with
      | none => exact ih hrest hlater
      | some t' =>
        rw [Option.toList_some, List.map_cons, List.map_nil, List.singleton_append, List.lookup_cons, hne]
        exact ih hrest hlater

theorem lookup_nodes (es : List (String × Tree)) (name : String) :
    (es.map fun e => (e.1, e.2.node)).lookup name = (es.lookup name).map Tree.node := by
  induction es with
  | nil => rfl
  | cons e es ih =>
    rw [List.map_cons, List.lookup_cons, List.lookup_cons]
    cases name == e.1 with
    | true => rfl
    | false => exact ih

/-- where all keys are known and none repeats, all fields are there -/
theorem knownFields_eq {known : List String} {es : List (String × Tree)} (hknown : ∀ e ∈ es, e.1 ∈ known)
    (hnodup : (es.map Prod.fst).Nodup) (d : Document) :
    knownFields d known (Tree.entryNodes es) = pure (es.map fun e => (e.1, e.2.node)) := by
  induction es with
  | nil => rw [Tree.entryNodes]; rfl
  | cons e es ih =>
    obtain ⟨k, v⟩ := e
    obtain ⟨hfresh, hrest⟩ := List.nodup_cons.1 hnodup
    have hread := ih (fun x hx => hknown x (List.mem_cons_of_mem _ hx)) hrest
    have hk : known.contains k = true := List.contains_iff_mem.2 (hknown _ List.mem_cons_self)
    have hnone : (es.map fun e => (e.1, e.2.node)).lookup k = none := by
      rw [lookup_nodes, lookup_eq_none hfresh]
      rfl
    rw [Tree.entryNodes, knownFields, decodes_text, hread]
    simp only [pure_bind, hk, hnone, Bool.not_true, Bool.false_eq_true, if_false, Option.isSome_none, List.map_cons]

/-- the fields of a record of which these parts are set -/
def fieldsOf (parts : List (String × Option Tree)) (d : Document) : Fields :=
  ⟨d, (given parts).map fun e => (e.1, e.2.node)⟩

/-- **Records** -/
theorem decodes_record {parts : List (String × Option Tree)} {build : Fields → Reading α} (known : List String)
    (hknown : parts.map Prod.fst = known) (hnodup : known.Nodup) (h : ∀ d, build (fieldsOf parts d) = pure a) :
    Decodes (record known build) (Tree.map (given parts)).node a := by
  intro d
  have hsub := names_given parts
  rw [hknown] at hsub
  rw [Tree.node]
  simp only [record, resolve, pure_bind]
  rw [knownFields_eq (fun e he => hsub.subset (List.mem_map_of_mem he)) (hnodup.sublist hsub), pure_bind]
  exact h d

section

variable {parts : List (String × Option Tree)} {name : String} {t : Option Tree}

theorem get_some {absent : α} {t : Tree} (hnodup : (parts.map Prod.fst).Nodup) (hmem : (name, some t) ∈ parts)
    (hdec : Decodes dec t.node a) (d : Document) : (fieldsOf parts d).get name dec absent = pure a := by
  rw [Fields.get, fieldsOf, lookup_nodes, lookup_given hnodup hmem]
  exact hdec d

theorem get_none {absent : α} (hnodup : (parts.map Prod.fst).Nodup) (hmem : (name, none) ∈ parts) (d : Document) :
    (fieldsOf parts d).get name dec absent = pure absent := by
  rw [Fields.get, fieldsOf, lookup_nodes, lookup_given hnodup hmem]
  rfl

theorem require_some {t : Tree} (hnodup : (parts.map Prod.fst).Nodup) (hmem : (name, some t) ∈ parts)
    (hdec : Decodes dec t.node a) (d : Document) : (fieldsOf parts d).require name dec = pure a := by
  rw [Fields.require, fieldsOf, lookup_nodes, lookup_given hnodup hmem]
  exact hdec d

end

end Decoder

/-- **A written document is decoded**, within any allowance. -/
theorem decode_document {entries : List (String × Tree)} (hentries : entries ≠ [])
    (h : Decodes dec (Tree.map entries).node a) : decode dec (Tree.document entries) = some a := by
  rw [decode, read_document hentries]
  simp only [Option.bind_eq_bind, Option.bind_some, Option.getD_some, h ⟨some (Tree.map entries).node, [], []⟩]
  rfl

end Fleet.Yaml
