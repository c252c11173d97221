/-
Documents read: the nodes that a written tree is read into.

The tokens of a tree are those of its parts one after the other, and reading follows them. A list in the column of its
key ends where no dash comes next, so that what stands behind it has to be known; everything else ends by itself.
- `Tree.node`: the node of a tree, with each text in the style it is written in.
- `readNode_tokens`, `readItems_tokens`, `readBare_tokens`, `readEntries_tokens`: the tokens are read into the node.
  Four steps for each token are enough.
- `read_document`: **a document is read into the node of its map**, with no anchors.
-/
import Fleet.Yaml.Node
import Fleet.Proofs.Yaml.Tree

namespace Fleet.Yaml

open Writer

/-! ## Nodes -/

namespace Tree

mutual

/-- the node of a tree: nothing is spelled `null`, and each text has the style it is written in -/
def node : Tree → Node
  | .null => .scalar "null" .plain none
  | .text s => .scalar s (style s) none
  | .list items => .sequence (itemNodes items) none
  | .map entries => .mapping (entryNodes entries) none

def itemNodes : List Tree → List Node
  | [] => []
  | item :: rest => node item :: itemNodes rest

def entryNodes : List (String × Tree) → List (Node × Node)
  | [] => []
  | (k, v) :: rest => (.scalar k (style k) none, node v) :: entryNodes rest

end

end Tree

variable {s s' s'' : NodeState} {more : List Token} {fuel : Nat} {block bare : Bool}

/-! ## First tokens -/

/-- a token that a value starts with; a dash only starts one below its key -/
def Starts (compact : Bool) : Token → Prop
  | .scalar _ _ | .flowSequenceStart | .flowMappingStart | .blockSequenceStart | .blockMappingStart => True
  | .blockEntry => compact = false
  | _ => False

theorem starts_tokens (compact : Bool) (t : Tree) : ∃ token more, t.tokens compact = token :: more ∧
    Starts compact token := by
  rcases t with _ | s | (_ | ⟨item, items⟩) | (_ | ⟨entry, entries⟩)
  · exact ⟨_, _, rfl, trivial⟩
  · exact ⟨_, _, rfl, trivial⟩
  · exact ⟨_, _, rfl, trivial⟩
  · rw [Tree.tokens_list (by simp)]
    cases compact with
    | true => exact ⟨_, _, rfl, trivial⟩
    | false => exact ⟨_, _, rfl, rfl⟩
  · exact ⟨_, _, rfl, trivial⟩
  · rw [Tree.tokens_map (by simp)]
    exact ⟨_, _, rfl, trivial⟩

/-- a value has no properties -/
theorem readNode_eq (fuel : Nat) (block bare compact : Bool) (t : Tree) (s : NodeState) (after : List Token) :
    readNode (fuel + 1) block bare { s with tokens := t.tokens compact ++ after } =
      readContent fuel block bare none false { s with tokens := t.tokens compact ++ after } := by
  obtain ⟨token, more, htokens, hstarts⟩ := starts_tokens compact t
  rw [htokens]
  cases token <;> first | cases hstarts; done | rfl

/-- a value is not left out -/
theorem readUnless_eq {ends : List Token} {compact : Bool} (hends : ∀ e ∈ ends, ¬ Starts compact e) (fuel : Nat)
    (block bare : Bool) (t : Tree) (s : NodeState) (after : List Token) :
    readUnless (fuel + 1) ends block bare { s with tokens := t.tokens compact ++ after } =
      readNode fuel block bare { s with tokens := t.tokens compact ++ after } := by
  obtain ⟨token, more, htokens, hstarts⟩ := starts_tokens compact t
  have hkept : ¬ token ∈ ends := fun h => hends token h hstarts
  rw [htokens, readUnless, List.cons_append, leavesOut, if_neg (by simpa using hkept)]

/-! ## One step -/

theorem drop_one (token : Token) : NodeState.drop { s with tokens := token :: more } 1 = { s with tokens := more } :=
  rfl

theorem readItems_cons {n : Node} {ns : List Node} (hitem : readUnless fuel [.blockEntry, .blockEnd] true false
    { s with tokens := more } = some (n, s')) (hrest : readItems fuel s' = some (ns, s'')) :
    readItems (fuel + 1) { s with tokens := .blockEntry :: more } = some (n :: ns, s'') := by
  rw [readItems]
  simp only [drop_one, hitem, hrest, Option.map_some]

theorem readBare_cons {n : Node} {ns : List Node}
    (hitem : readUnless fuel [.blockEntry, .key, .value, .blockEnd] true false { s with tokens := more } =
      some (n, s'))
    (hrest : readBare fuel s' = some (ns, s'')) :
    readBare (fuel + 1) { s with tokens := .blockEntry :: more } = some (n :: ns, s'') := by
  rw [readBare]
  simp only [drop_one, hitem, hrest, Option.map_some]

theorem readEntries_cons {n : Node} {ns : List (Node × Node)} (k : String) (way : ScalarStyle)
    (hvalue : readUnless (fuel + 2) [.key, .value, .blockEnd] true true { s with tokens := more } = some (n, s'))
    (hrest : readEntries (fuel + 3) s' = some (ns, s'')) :
    readEntries (fuel + 4) { s with tokens := .key :: .scalar k way :: .value :: more } =
      some ((.scalar k way none, n) :: ns, s'') := by
  have hkey : readUnless (fuel + 3) [.key, .value, .blockEnd] true true
      { s with tokens := .scalar k way :: .value :: more } =
      some (.scalar k way none, { s with tokens := .value :: more }) := rfl
  have hbehind : readValue (fuel + 3) [.key, .value, .blockEnd] true { s with tokens := .value :: more } =
      some (n, s') := by
    rw [readValue]
    exact hvalue
  rw [readEntries]
  simp only [drop_one, hkey, hbehind, hrest, Option.map_some]

theorem readContent_items {ns : List Node} (hread : readItems fuel { s with tokens := more } = some (ns, s')) :
    readContent (fuel + 1) true bare none false { s with tokens := .blockSequenceStart :: more } =
      some (.sequence ns none, s') := by
  rw [readContent]
  simp only [drop_one, hread, if_true, Option.map_some]

theorem readContent_bare {ns : List Node}
    (hread : readBare fuel { s with tokens := .blockEntry :: more } = some (ns, s')) :
    readContent (fuel + 1) block true none false { s with tokens := .blockEntry :: more } =
    some (.sequence ns none, s') := by
  rw [readContent]
  simp only [hread, if_true, Option.map_some]

theorem readContent_entries {ns : List (Node × Node)}
    (hread : readEntries fuel { s with tokens := more } = some (ns, s')) :
    readContent (fuel + 1) true bare none false { s with tokens := .blockMappingStart :: more } =
      some (.mapping ns none, s') := by
  rw [readContent]
  simp only [drop_one, hread, if_true, Option.map_some]

/-! ## Trees -/

/-- what stands behind a list in the column of its key is no dash -/
def Behind (compact : Bool) (after : List Token) : Prop := compact = false → after.head? ≠ some .blockEntry

theorem behind_true (after : List Token) : Behind true after := fun h => by cases h

theorem behind_entries (compact : Bool) (entries : List (String × Tree)) (after : List Token) :
    Behind compact (Tree.entryTokens entries ++ .blockEnd :: after) := by
  intro _
  rcases entries with _ | ⟨⟨k, v⟩, entries⟩ <;> simp [Tree.entryTokens]

mutual

/-- **The tokens of a value are read into its node.** -/
theorem readNode_tokens (t : Tree) {s : NodeState} {after : List Token} {fuel : Nat} {bare compact : Bool}
    (hbare : compact = false → bare = true) (hafter : Behind compact after)
    (hfuel : 4 * (t.tokens compact).length ≤ fuel) :
    readNode fuel true bare { s with tokens := t.tokens compact ++ after } =
    some (t.node, { s with tokens := after }) := by
  obtain ⟨token, more, htokens, -⟩ := starts_tokens compact t
  have hpositive : 0 < (t.tokens compact).length := by simp [htokens]
  obtain ⟨fuel, rfl⟩ : ∃ n, fuel = n + 3 := ⟨fuel - 3, by omega⟩
  rw [readNode_eq]
  match t with
  | .null => rfl
  | .text s => rfl
  | .list [] => rfl
  | .map [] => rfl
  | .list (item :: items) =>
    rw [Tree.tokens_list (by simp)] at hfuel ⊢
    cases compact with
    | true =>
      rw [if_pos rfl, List.length_cons, List.length_append, List.length_singleton] at hfuel
      rw [if_pos rfl, List.cons_append, List.append_assoc]
      exact readContent_items (readItems_tokens (item :: items) (Nat.succ_pos _) (by omega))
    | false =>
      rw [if_neg (by decide)] at hfuel
      have hread := @readBare_tokens (item :: items) s after (fuel + 1) (hafter rfl) (Nat.succ_pos _) (by omega)
      rw [Tree.itemTokens, List.cons_append] at hread
      rw [if_neg (by decide), hbare rfl, Tree.itemTokens, List.cons_append]
      exact readContent_bare hread
  | .map (entry :: entries) =>
    rw [Tree.tokens_map (by simp)] at hfuel ⊢
    rw [List.length_cons, List.length_append, List.length_singleton] at hfuel
    rw [List.cons_append, List.append_assoc]
    exact readContent_entries (readEntries_tokens (entry :: entries) (Nat.succ_pos _) (by omega))

theorem readItems_tokens (items : List Tree) {s : NodeState} {after : List Token} {fuel : Nat} (hpositive : 0 < fuel)
    (hfuel : 4 * (Tree.itemTokens items).length ≤ fuel + 2) :
    readItems fuel { s with tokens := Tree.itemTokens items ++ .blockEnd :: after } =
      some (Tree.itemNodes items, { s with tokens := after }) := by
  match items with
  | [] =>
    obtain ⟨fuel, rfl⟩ : ∃ n, fuel = n + 1 := ⟨fuel - 1, by omega⟩
    rfl
  | item :: items =>
    rw [Tree.itemTokens, List.length_cons, List.length_append] at hfuel
    obtain ⟨fuel, rfl⟩ : ∃ n, fuel = n + 2 := ⟨fuel - 2, by omega⟩
    rw [Tree.itemTokens, List.cons_append, List.append_assoc]
    refine readItems_cons ?_ (readItems_tokens items (Nat.succ_pos _) (by omega))
    rw [readUnless_eq (by simp [Starts])]
    exact readNode_tokens item (fun h => by cases h) (behind_true _) (by omega)

theorem readBare_tokens (items : List Tree) {s : NodeState} {after : List Token} {fuel : Nat}
    (hafter : after.head? ≠ some .blockEntry) (hpositive : 0 < fuel)
    (hfuel : 4 * (Tree.itemTokens items).length ≤ fuel + 2) :
    readBare fuel { s with tokens := Tree.itemTokens items ++ after } =
      some (Tree.itemNodes items, { s with tokens := after }) := by
  match items with
  | [] =>
    obtain ⟨fuel, rfl⟩ : ∃ n, fuel = n + 1 := ⟨fuel - 1, by omega⟩
    rw [Tree.itemTokens, List.nil_append, readBare]
    split
    · rename_i heq
      simp only at heq
      rw [heq] at hafter
      exact absurd rfl hafter
    · rfl
  | item :: items =>
    rw [Tree.itemTokens, List.length_cons, List.length_append] at hfuel
    obtain ⟨fuel, rfl⟩ : ∃ n, fuel = n + 2 := ⟨fuel - 2, by omega⟩
    rw [Tree.itemTokens, List.cons_append, List.append_assoc]
    refine readBare_cons ?_ (readBare_tokens items hafter (Nat.succ_pos _) (by omega))
    rw [readUnless_eq (by simp [Starts])]
    exact readNode_tokens item (fun h => by cases h) (behind_true _) (by omega)

theorem readEntries_tokens (entries : List (String × Tree)) {s : NodeState} {after : List Token} {fuel : Nat}
    (hpositive : 0 < fuel) (hfuel : 4 * (Tree.entryTokens entries).length ≤ fuel + 2) :
    readEntries fuel { s with tokens := Tree.entryTokens entries ++ .blockEnd :: after } =
      some (Tree.entryNodes entries, { s with tokens := after }) := by
  match entries with
  | [] =>
    obtain ⟨fuel, rfl⟩ : ∃ n, fuel = n + 1 := ⟨fuel - 1, by omega⟩
    rfl
  | (k, v) :: entries =>
    rw [Tree.entryTokens, List.length_cons, List.length_cons, List.length_cons, List.length_append] at hfuel
    obtain ⟨fuel, rfl⟩ : ∃ n, fuel = n + 4 := ⟨fuel - 4, by omega⟩
    rw [Tree.entryTokens, List.cons_append, List.cons_append, List.cons_append, List.append_assoc]
    refine readEntries_cons k (style k) ?_ (readEntries_tokens entries (Nat.succ_pos _) (by omega))
    rw [readUnless_eq (by simp [Starts])]
    exact readNode_tokens v (fun _ => rfl) (behind_entries _ entries after) (by omega)

end

/-! ## Documents -/

/-- **A document is read into the node of its map.** -/
theorem read_document {entries : List (String × Tree)} (hentries : entries ≠ []) :
    Document.read (Tree.document entries) = some ⟨some (Tree.map entries).node, [], []⟩ := by
  have hread := @readNode_tokens (.map entries) { tokens := [], handles := standardHandles } []
    (4 * ((Tree.map entries).tokens true).length + 16) false true (fun h => by cases h) (behind_true _)
    (Nat.le_add_right _ _)
  rw [List.append_nil, Tree.tokens_map hentries] at hread
  rw [Document.read, scan_document hentries, Option.bind_some, Document.ofTokens?, if_neg (by decide), hread]
  rfl

end Fleet.Yaml
