/-
The routing table, and what a reader learns from it.

- `eachOnce_distinct`: the messages of a route are those that are declared, each once, in the order of their first
  declarations (`EachOnce`).
- `head?_words_iff`: a name's first word (`FirstWord`) is what stands between its first blanks and the next ones.
- `read_routingTable`: the text of the table reads back as the routes.
- `routes_are_told`: so it tells for every role which messages the role sends and receives, and different routes are
  different texts.
-/
import Fleet.Proofs.Json
import Fleet.Proofs.SortedMap
import Fleet.Proofs.Traversal
import Fleet.Routing

namespace Fleet

/-! ## Each message once -/

/-- the list has what is declared, each once, in the order of the first declarations -/
structure EachOnce (declared listed : List String) : Prop where
  mem_iff : ∀ s, s ∈ listed ↔ s ∈ declared
  nodup : listed.Nodup
  ordered : listed.Pairwise fun s t => declared.idxOf s < declared.idxOf t

namespace EachOnce

variable {declared listed : List String} {s : String}

theorem nil : EachOnce [] [] := ⟨fun _ => .rfl, .nil, .nil⟩

/-- a declaration that is repeated changes nothing -/
theorem repeated (h : EachOnce declared listed) (hs : s ∈ listed) : EachOnce (declared ++ [s]) listed := by
  have hdeclared := (h.mem_iff s).1 hs
  refine ⟨fun t => ?_, h.nodup, ?_⟩
  · rw [h.mem_iff, List.mem_append, List.mem_singleton]
    exact ⟨.inl, fun ht => ht.elim id fun heq => heq ▸ hdeclared⟩
  · refine h.ordered.imp_of_mem fun {t u} ht hu hlt => ?_
    rwa [List.idxOf_append_of_mem ((h.mem_iff t).1 ht), List.idxOf_append_of_mem ((h.mem_iff u).1 hu)]

/-- a new declaration comes last -/
theorem added (h : EachOnce declared listed) (hs : s ∉ listed) : EachOnce (declared ++ [s]) (listed ++ [s]) := by
  have hfresh : s ∉ declared := fun hdeclared => hs ((h.mem_iff s).2 hdeclared)
  refine ⟨fun t => ?_, ?_, ?_⟩
  · simp only [List.mem_append, h.mem_iff]
  · refine List.nodup_append.2 ⟨h.nodup, List.nodup_singleton s, fun t ht u hu heq => ?_⟩
    exact hs (List.mem_singleton.1 hu ▸ heq ▸ ht)
  · refine List.pairwise_append.2 ⟨?_, List.pairwise_singleton _ _, ?_⟩
    · refine h.ordered.imp_of_mem fun {t u} ht hu hlt => ?_
      rwa [List.idxOf_append_of_mem ((h.mem_iff t).1 ht), List.idxOf_append_of_mem ((h.mem_iff u).1 hu)]
    · intro t ht u hu
      cases List.mem_singleton.1 hu
      rw [List.idxOf_append_of_mem ((h.mem_iff t).1 ht), List.idxOf_append_of_notMem hfresh]
      exact Nat.lt_of_lt_of_le (List.idxOf_lt_length_of_mem ((h.mem_iff t).1 ht)) (Nat.le_add_right _ _)

end EachOnce

namespace Route

theorem eachOnce_distinctFrom {seen declared : List String} (h : EachOnce declared seen.reverse) (l : List String) :
    EachOnce (declared ++ l) (distinctFrom seen l) := by
  induction l generalizing seen declared with
  | nil => rwa [List.append_nil]
  | cons s l ih =>
    rw [List.append_cons, distinctFrom]
    split
    · rename_i hseen
      exact ih (h.repeated (List.mem_reverse.2 (List.contains_iff_mem.1 hseen)))
    · rename_i hseen
      refine ih ?_
      rw [List.reverse_cons]
      exact h.added fun hs => hseen (List.contains_iff_mem.2 (List.mem_reverse.1 hs))

/-- **Of messages that are declared repeatedly the first declaration counts.** -/
theorem eachOnce_distinct (l : List String) : EachOnce l (distinct l) := by
  have hnone : EachOnce [] ([] : List String).reverse := .nil
  exact eachOnce_distinctFrom hnone l

end Route

/-! ## First words -/

namespace Text

/-- behind its first blanks, the text begins with this word -/
def FirstWord (text word : String) : Prop :=
  word ≠ "" ∧ (∀ c ∈ word.toList, isBlank c = false) ∧
    ∃ blanks rest, text.toList = blanks ++ (word.toList ++ rest) ∧ (∀ c ∈ blanks, isBlank c = true) ∧
      ∀ c ∈ rest.head?, isBlank c = true

variable {cs word : List Char} {text w : String}

theorem head?_wordsFrom (hword : word ≠ []) (cs : List Char) :
    (wordsFrom word cs).head? = some (word.reverse ++ cs.takeWhile fun c => !isBlank c) := by
  induction cs generalizing word with
  | nil => simp [wordsFrom, hword]
  | cons c cs ih =>
    rw [wordsFrom, List.takeWhile_cons]
    cases isBlank c with
    | true => simp [hword]
    | false => simp [ih (List.cons_ne_nil c word)]

theorem wordsFrom_nil_cons_blank {c : Char} (h : isBlank c = true) (cs : List Char) :
    wordsFrom [] (c :: cs) = wordsFrom [] cs := by simp [wordsFrom, h]

theorem wordsFrom_trimStart (cs : List Char) : wordsFrom [] (trimStart cs) = wordsFrom [] cs := by
  induction cs with
  | nil => rfl
  | cons c cs ih =>
    rw [trimStart, List.dropWhile_cons]
    split
    · rename_i hblank
      rw [wordsFrom_nil_cons_blank hblank]
      exact ih
    · rfl

theorem not_blank_of_trimStart {c : Char} {rest : List Char} (h : trimStart cs = c :: rest) : isBlank c = false := by
  have hhead := List.head?_dropWhile_not isBlank cs
  rw [show cs.dropWhile isBlank = c :: rest from h] at hhead
  simpa using hhead

/-- the first word stands behind the first blanks, up to the next one -/
theorem head?_wordsFrom_nil (cs : List Char) : (wordsFrom [] cs).head? =
    if trimStart cs = [] then none else some ((trimStart cs).takeWhile fun c => !isBlank c) := by
  rw [← wordsFrom_trimStart]
  cases htrim : trimStart cs with
  | nil => rfl
  | cons c rest =>
    have hc : isBlank c = false := not_blank_of_trimStart htrim
    have hstep : wordsFrom [] (c :: rest) = wordsFrom [c] rest := by simp [wordsFrom, hc]
    rw [hstep, head?_wordsFrom (List.cons_ne_nil c []), List.takeWhile_cons]
    simp [hc]

theorem firstWord_iff : FirstWord text w ↔
    trimStart text.toList ≠ [] ∧ w.toList = (trimStart text.toList).takeWhile fun c => !isBlank c := by
  constructor
  · rintro ⟨hne, hword, blanks, rest, htext, hblanks, hrest⟩
    have hcons : w.toList ≠ [] := by simpa using hne
    have htrim : trimStart text.toList = w.toList ++ rest := by
      rw [htext, trimStart, List.dropWhile_append_of_pos hblanks]
      obtain ⟨c, cs, hc⟩ := List.exists_cons_of_ne_nil hcons
      rw [hc, List.cons_append, List.dropWhile_cons_of_neg (by simp [hword c (hc ▸ List.mem_cons_self)])]
    refine ⟨by simp [htrim, hne], ?_⟩
    rw [htrim, List.takeWhile_append_of_pos (by simpa using hword)]
    cases rest with
    | nil => simp
    | cons c rest => simp [hrest c rfl]
  · rintro ⟨hne, hword⟩
    obtain ⟨c, rest, htrim⟩ := List.exists_cons_of_ne_nil hne
    have hc : isBlank c = false := not_blank_of_trimStart htrim
    refine ⟨?_, fun c hc => ?_, text.toList.takeWhile isBlank,
      (trimStart text.toList).dropWhile fun c => !isBlank c, ?_,
      fun c hc => List.mem_takeWhile_imp hc, fun c hc => ?_⟩
    · rintro rfl
      simp [htrim, hc] at hword
    · rw [hword] at hc
      simpa using List.mem_takeWhile_imp hc
    · rw [hword, List.takeWhile_append_dropWhile, trimStart, List.takeWhile_append_dropWhile]
    · have hhead := List.head?_dropWhile_not (fun c => !isBlank c) (trimStart text.toList)
      rw [Option.mem_def.1 hc] at hhead
      simpa using hhead

/-- **The first of a text's words.** -/
theorem head?_words_iff : (words text).head? = some w ↔ FirstWord text w := by
  rw [firstWord_iff, words, List.head?_map, head?_wordsFrom_nil]
  split
  · rename_i hnil
    simp [hnil]
  · rename_i hne
    rw [Option.map_some, Option.some_inj, and_iff_right hne, ← String.toList_inj, String.toList_ofList, eq_comm]

/-- a text has a first word unless it is blank -/
theorem head?_words_isSome : (words text).head?.isSome = !isAllBlank text := by
  rw [words, List.head?_map, head?_wordsFrom_nil, isAllBlank, trimStart]
  simp only [List.dropWhile_eq_nil_iff, ← List.all_eq_true]
  cases text.toList.all isBlank <;> rfl

end Text

/-! ## Reading a table -/

namespace Route

/-- a list of texts -/
def texts? : Json → Option (List String)
  | .array items => items.mapM Json.text?
  | _ => none

/-- the route that a record spells; a name for messages may be left out -/
def ofJson? (j : Json) : Option Route := do
  let namespaceName ← match j.member? "namespace" with
    | none => pure none
    | some name => (Json.text? name).map some
  let receives ← (j.member? "receives").bind texts?
  let role ← (j.member? "role").bind Json.text?
  let sends ← (j.member? "sends").bind texts?
  pure ⟨namespaceName, receives, role, sends⟩

/-- the routes that a text spells -/
def readTable (text : String) : Option (List Route) :=
  match Json.parse text with
  | some (.array items) => items.mapM ofJson?
  | _ => none

theorem texts?_texts (l : List String) : texts? (.texts l) = some l :=
  mapM_map_of_inverse (g := Json.text) (k := Json.text?) (fun _ => rfl) l

/-- what stands under the names of a route's record -/
theorem member?_toJson (r : Route) : r.toJson.member? "namespace" = r.namespaceName.map Json.text ∧
    r.toJson.member? "receives" = some (.texts r.receives) ∧ r.toJson.member? "role" = some (.text r.role) ∧
    r.toJson.member? "sends" = some (.texts r.sends) := by
  obtain ⟨_ | name, receives, role, sends⟩ := r <;> exact ⟨rfl, rfl, rfl, rfl⟩

theorem ofJson?_toJson (r : Route) : ofJson? r.toJson = some r := by
  obtain ⟨namespaceName, receives, role, sends⟩ := r
  cases namespaceName <;> simp [ofJson?, member?_toJson, texts?_texts, Json.text, Json.text?]

/-- the names of a route's record are in alphabetical order -/
theorem ascending_toJson (r : Route) : ∃ members, r.toJson = .record members ∧
    (members.map Prod.fst).Pairwise (· < ·) := by
  refine ⟨_, rfl, ?_⟩
  cases r.namespaceName with
  | none =>
    change ["receives", "role", "sends"].Pairwise (· < ·)
    decide
  | some name =>
    change ["namespace", "receives", "role", "sends"].Pairwise (· < ·)
    decide

theorem spelled_texts (l : List String) : (Json.texts l).Spelled :=
  .array (List.forall_mem_map.2 fun s _ => .text s)

theorem spelled_toJson (r : Route) : r.toJson.Spelled := by
  refine .record (List.forall_mem_append.2 ⟨fun m hm => ?_, ?_⟩)
  · obtain ⟨name, -, rfl⟩ := Option.map_eq_some_iff.1 (Option.mem_toList.1 hm)
    exact .text name
  · simp only [List.forall_mem_cons]
    exact ⟨spelled_texts r.receives, .text r.role, spelled_texts r.sends, by simp⟩

end Route

namespace Project

open Route

/-- **The text of the table reads back as the routes.** -/
theorem parse_routingTable (p : Project) : Json.parse p.routingTable = some (.array (p.routes.map Route.toJson)) := by
  refine Json.Spelled.parse_compact (.array ?_)
  exact List.forall_mem_map.2 fun r _ => spelled_toJson r

theorem readTable_routingTable (p : Project) : readTable p.routingTable = some p.routes := by
  rw [readTable, parse_routingTable]
  exact mapM_map_of_inverse ofJson?_toJson p.routes

/-- the messages of one kind that the configuration of a role declares; none without a configuration -/
def declared (p : Project) (kind : Messages → List String) (role : String) : List String :=
  (p.services.get? role).elim [] fun s => kind s.messages

/-- what a route says about a role that comes from this source -/
structure Tells (p : Project) (e : String × Source) (r : Route) : Prop where
  role : r.role = e.1
  sends : EachOnce (p.declared Messages.sends e.1) r.sends
  receives : EachOnce (p.declared Messages.receives e.1) r.receives
  /-- the first message has an internal name that is not blank -/
  isNamed : r.namespaceName.isSome ↔ ∃ m, e.2.messageNames.head? = some m ∧ Text.isAllBlank m.internalName = false
  named : ∀ word, r.namespaceName = some word ↔
    ∃ m, e.2.messageNames.head? = some m ∧ Text.FirstWord m.internalName word

theorem tells_route (p : Project) (e : String × Source) : p.Tells e (p.route e.1 e.2) := by
  have hmessages (kind : Messages → List String) (hnone : kind {} = []) :
      kind (((p.services.get? e.1).map Service.messages).getD {}) = p.declared kind e.1 := by
    unfold declared
    cases p.services.get? e.1 with
    | none => exact hnone
    | some s => rfl
  refine ⟨rfl, ?_, ?_, ?_, fun word => ?_⟩
  · rw [← hmessages Messages.sends rfl]
    exact eachOnce_distinct _
  · rw [← hmessages Messages.receives rfl]
    exact eachOnce_distinct _
  · change (namespaceOf e.2).isSome ↔ _
    rw [namespaceOf]
    cases e.2.messageNames.head? with
    | none => simp
    | some m => simp [Text.head?_words_isSome]
  · change namespaceOf e.2 = some word ↔ _
    simp only [namespaceOf, Option.bind_eq_some_iff, Text.head?_words_iff]

/-- **A routing table tells who sends and receives what.** Its text is a JSON array of records, with their names in
alphabetical order, and reads back as a list of routes: one for each role of the application, in ascending order. A
route has the messages that the configuration of its role declares, each once, in the order of their first declarations,
and the first word of the first message's internal name, unless that is blank. Different lists of routes are different
texts. -/
theorem routes_are_told :
    (∀ p : Project, ∃ items routes, Json.parse p.routingTable = some (.array items) ∧
      (∀ j ∈ items, ∃ members, j = .record members ∧ (members.map Prod.fst).Pairwise (· < ·)) ∧
      readTable p.routingTable = some routes ∧ routes = p.routes ∧
      routes.map Route.role = p.roles ∧ p.roles.Pairwise (· < ·) ∧
      List.Forall₂ p.Tells p.application.services.entries routes) ∧
    ∀ p q : Project, p.routes ≠ q.routes → p.routingTable ≠ q.routingTable := by
  constructor
  · intro p
    refine ⟨p.routes.map Route.toJson, p.routes, p.parse_routingTable, ?_, p.readTable_routingTable, rfl, ?_, ?_, ?_⟩
    · exact List.forall_mem_map.2 fun r _ => ascending_toJson r
    · rw [routes, List.map_map]
      rfl
    · exact SortedMap.ascending_keys p.application.services
    · rw [routes, List.forall₂_map_right_iff, List.forall₂_same]
      exact fun e _ => p.tells_route e
  · intro p q hne heq
    have hread := congrArg readTable heq
    rw [readTable_routingTable, readTable_routingTable] at hread
    exact hne (Option.some.inj hread)

/-! ## A shop with a message bus -/

/-- pages that send this, under a name with blanks in front, and a store that is not configured -/
def pagesSending (sends : List String) : Project where
  dir := "shop"
  application :=
    { services := .ofList [("store", {}), ("pages", { messageNames := [⟨"shop.open", "\t pages open"⟩, ⟨"", "x"⟩] })] }
  services := .singleton "pages" { messages := { sends, receives := ["\"open\"\n"] } }

theorem pages_are_told :
    readTable (pagesSending ["hello", "bye", "hello"]).routingTable = some
      [⟨some "pages", ["\"open\"\n"], "pages", ["hello", "bye"]⟩, ⟨none, [], "store", []⟩] ∧
    (pagesSending ["bye", "hello"]).routes ≠ (pagesSending ["hello", "bye", "hello"]).routes ∧
    (pagesSending ["bye", "hello"]).routingTable ≠ (pagesSending ["hello", "bye", "hello"]).routingTable := by
  obtain ⟨htold, hdiffer⟩ := routes_are_told
  have hne : (pagesSending ["bye", "hello"]).routes ≠ (pagesSending ["hello", "bye", "hello"]).routes := by
    decide +kernel
  refine ⟨?_, hne, hdiffer _ _ hne⟩
  obtain ⟨_, routes, -, -, hread, rfl, -⟩ := htold (pagesSending ["hello", "bye", "hello"])
  rw [hread]
  decide +kernel

end Project

end Fleet
