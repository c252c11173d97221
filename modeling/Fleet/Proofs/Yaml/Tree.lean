/-
Trees scanned: the tokens that a written tree is read into.

A tree is written line by line. Wherever one of its values ends, the scan stands at the start of a line with the blocks
around the value still open, and what comes next says by its column which of them are closed.
- `Tree.tokens`: the tokens of a tree. A list that stands in the column of its key has no tokens of its own around it.
- `reaches_value`, `reaches_items`, `reaches_entries`: what is written is scanned to the tokens, by one step for each
  value, dash and key.
- `scan_document`: so a whole document is scanned to the tokens of its map.
-/
import Fleet.Proofs.Yaml.Key

namespace Fleet.Yaml

open Writer

/-! ## Tokens -/

namespace Tree

mutual

/-- the tokens of a value; `compact` says that it starts on the line of its dash or colon -/
def tokens (compact : Bool) : Tree → List Token
  | .null => [.scalar "null" .plain]
  | .text s => [.scalar s (style s)]
  | .list [] => [.flowSequenceStart, .flowSequenceEnd]
  | .list items => if compact then .blockSequenceStart :: (itemTokens items ++ [.blockEnd]) else itemTokens items
  | .map [] => [.flowMappingStart, .flowMappingEnd]
  | .map entries => .blockMappingStart :: (entryTokens entries ++ [.blockEnd])

def itemTokens : List Tree → List Token
  | [] => []
  | item :: rest => .blockEntry :: (tokens true item ++ itemTokens rest)

def entryTokens : List (String × Tree) → List Token
  | [] => []
  | (k, v) :: rest => .key :: .scalar k (style k) :: .value :: (tokens (!isSimpleKey k) v ++ entryTokens rest)

end

theorem tokens_list {items : List Tree} (h : items ≠ []) (compact : Bool) : tokens compact (.list items) =
    if compact then .blockSequenceStart :: (itemTokens items ++ [.blockEnd]) else itemTokens items := by
  rw [tokens]
  exact h

theorem tokens_map {entries : List (String × Tree)} (h : entries ≠ []) (compact : Bool) :
    tokens compact (.map entries) = .blockMappingStart :: (entryTokens entries ++ [.blockEnd]) := by
  rw [tokens]
  exact h

end Tree

namespace Scan

variable {s : Scan} {c : Char} {k : String} {rest more : List Char} {line column n : Nat} {blocks : List Nat}
  {out : List Token} {keyAllowed compact : Bool} {v : Tree} {items : List Tree} {entries : List (String × Tree)}

/-! ## Steps -/

theorem headD_opened (h : blocks.headD 0 ≤ n + 1) : (opened n blocks).headD 0 = n + 1 := by
  unfold opened
  split
  · omega
  · rfl

theorem opened_of_eq (h : blocks.headD 0 = n + 1) (t : Token) :
    opened n blocks = blocks ∧ openedOut n t blocks out = out := by
  constructor
  · rw [opened, if_pos (by omega)]
  · rw [openedOut, if_pos (by omega)]

theorem opened_of_le (h : blocks.headD 0 ≤ n) (t : Token) :
    opened n blocks = (n + 1) :: blocks ∧ openedOut n t blocks out = t :: out := by
  constructor
  · rw [opened, if_neg (by omega)]
  · rw [openedOut, if_neg (by omega)]

theorem openBlock_point (keyAllowed : Bool) (cursor : Cursor) (n : Nat) (t : Token) (blocks : List Nat)
    (out : List Token) : (point keyAllowed cursor blocks out).openBlock n out.length t =
      point keyAllowed cursor (opened n blocks) (openedOut n t blocks out) := by
  by_cases h : n < blocks.headD 0
  · rw [opened, openedOut, if_pos h, if_pos h, openBlock, if_pos (by simpa [point, inFlow, indent] using h)]
  · rw [opened, openedOut, if_neg h, if_neg h, openBlock, if_neg (by simpa [point, inFlow, indent] using h)]
    simp [point, insertToken]

/-- a dash is an item, and opens a block if it stands inside the last one -/
theorem reaches_dash (hmore : startsBlank more = true)
    (hadvance : s.advance = some (point true ⟨'-' :: more, line, n⟩ blocks out)) :
    Reaches s (point true ⟨more, line, n + 1⟩ (opened n blocks)
      (.blockEntry :: openedOut n .blockSequenceStart blocks out)) := by
  have hdocument : startsDocumentMark ('-' :: more) = false := by
    unfold startsDocumentMark
    split
    · rename_i heq
      cases heq
      cases hmore
    · rename_i heq
      cases heq
    · rfl
  have htoken : (point true ⟨'-' :: more, line, n⟩ blocks out).token '-' more =
      (point true ⟨'-' :: more, line, n⟩ blocks out).blockEntryToken := by
    simp [token, hdocument, hmore]
  refine reaches_of_token hadvance rfl (htoken.trans ?_) le_rfl
  have hopen := openBlock_point true ⟨'-' :: more, line, n⟩ n .blockSequenceStart blocks out
  rw [blockEntryToken, if_neg (by simp [point]), Option.bind_eq_bind]
  exact congrArg (fun s => (forgetKey s).bind fun s => some { s.mark 1 .blockEntry with keyAllowed := true }) hopen

/-- a question mark is a key of its own line or lines -/
theorem reaches_question (hmore : startsBlank more = true)
    (hadvance : s.advance = some (point true ⟨'?' :: more, line, n⟩ blocks out)) :
    Reaches s (point true ⟨more, line, n + 1⟩ (opened n blocks)
      (.key :: openedOut n .blockMappingStart blocks out)) := by
  have htoken : (point true ⟨'?' :: more, line, n⟩ blocks out).token '?' more =
      (point true ⟨'?' :: more, line, n⟩ blocks out).keyToken := by
    simp [token, startsDocumentMark, hmore]
  refine reaches_of_token hadvance rfl (htoken.trans ?_) le_rfl
  have hopen := openBlock_point true ⟨'?' :: more, line, n⟩ n .blockMappingStart blocks out
  rw [keyToken, if_neg (by simp [point]), Option.bind_eq_bind]
  exact congrArg (fun s => (forgetKey s).bind fun s => some { s.mark 1 .key with keyAllowed := !s.inFlow }) hopen

/-- a colon at the start of a line is the value of such a key -/
theorem reaches_colon (hmore : startsBlank more = true) (hblocks : blocks.headD 0 = n + 1)
    (hadvance : s.advance = some (point true ⟨':' :: more, line, n⟩ blocks out)) :
    Reaches s (point true ⟨more, line, n + 1⟩ blocks (.value :: out)) := by
  have htoken : (point true ⟨':' :: more, line, n⟩ blocks out).token ':' more =
      (point true ⟨':' :: more, line, n⟩ blocks out).valueToken := by
    simp [token, startsDocumentMark, hmore]
  refine reaches_of_token hadvance rfl (htoken.trans ?_) le_rfl
  have hopen := openBlock_point true ⟨':' :: more, line, n⟩ n .blockMappingStart blocks out
  obtain ⟨hsame, hout⟩ := @opened_of_eq n blocks out hblocks .blockMappingStart
  rw [hsame, hout] at hopen
  exact congrArg (fun s => some { s.mark 1 .value with keyAllowed := true }) hopen

/-- places that no key has to be at are given up in silence -/
theorem exists_dropStale {keys : List KeyPlace} (h : ∀ p ∈ keys, p.required = false) (line column : Nat) :
    ∃ kept, dropStale line column keys = some kept ∧ kept ⊆ keys := by
  induction keys with
  | nil => exact ⟨[], rfl, fun _ h => h⟩
  | cons p keys ih =>
    obtain ⟨kept, hkept, hsub⟩ := ih fun q hq => h q (List.mem_cons_of_mem _ hq)
    rw [dropStale, h p List.mem_cons_self, hkept]
    split
    · exact ⟨kept, rfl, fun q hq => List.mem_cons_of_mem _ (hsub hq)⟩
    · exact ⟨p :: kept, rfl, List.cons_subset_cons _ hsub⟩

/-- a flow collection without anything in it -/
theorem reaches_flow {c c' : Char} {t t' : Token} (hc : Solid c) (hc' : Solid c')
    (hopen : ∀ (s : Scan) rest, s.token c rest = s.openFlow t)
    (hclose : ∀ (s : Scan) rest, s.token c' rest = s.closeFlow t')
    (hblocks : blocks.headD 0 = n + 1) (hcolumn : n < column) (hrest : Resumes n rest) :
    Reaches (point keyAllowed ⟨' ' :: c :: c' :: '\n' :: rest, line, column⟩ blocks out)
      (point true ⟨rest, line + 1, 0⟩ blocks (t' :: t :: out)) := by
  have hidle : Idle (placesAt keyAllowed ⟨c :: c' :: '\n' :: rest, line, column + 1⟩ blocks out) (line + 1) :=
    idle_behind_space hblocks hcolumn (Nat.lt_succ_self _)
  have hlevel : ∀ p ∈ placesAt keyAllowed ⟨c :: c' :: '\n' :: rest, line, column + 1⟩ blocks out, p.level = 0 := by
    intro p hp
    cases keyAllowed with
    | false => cases hp
    | true =>
      obtain rfl := List.mem_singleton.1 hp
      rfl
  obtain ⟨kept, hkept, hsub⟩ := exists_dropStale (fun p hp => (hidle p hp).1) line (column + 1 + 1)
  -- inside of the brackets, and behind them
  have hinside : (point keyAllowed ⟨c :: c' :: '\n' :: rest, line, column + 1⟩ blocks out).openFlow t =
      some { pointWith (placesAt keyAllowed ⟨c :: c' :: '\n' :: rest, line, column + 1⟩ blocks out) true
        ⟨c' :: '\n' :: rest, line, column + 1 + 1⟩ blocks (t :: out) with flow := 1 } := by
    rw [openFlow, rememberKey_point]
    rfl
  have hnext : Scan.advance
      { pointWith (placesAt keyAllowed ⟨c :: c' :: '\n' :: rest, line, column + 1⟩ blocks out) true
        ⟨c' :: '\n' :: rest, line, column + 1 + 1⟩ blocks (t :: out) with flow := 1 } =
      some { pointWith kept true ⟨c' :: '\n' :: rest, line, column + 1 + 1⟩ blocks (t :: out) with flow := 1 } := by
    have hskip := @skipBlank_solid c' ('\n' :: rest) line (column + 1 + 1) true true hc'
    simp only [advance, pointWith, point, inFlow, Nat.lt_one_iff, decide_true, hskip, hkept, Option.map_some]
    rfl
  have hbehind : Scan.closeFlow
      { pointWith kept true ⟨c' :: '\n' :: rest, line, column + 1 + 1⟩ blocks (t :: out) with flow := 1 } t' =
      some (pointWith kept false ⟨'\n' :: rest, line, column + 1 + 1 + 1⟩ blocks (t' :: t :: out)) := by
    cases kept with
    | nil => rfl
    | cons p kept =>
      have hp : p.level = 0 := hlevel p (hsub List.mem_cons_self)
      simp only [closeFlow, forgetKey, splitKeys, pointWith, hp, Nat.zero_ne_one, if_false]
      rfl
  exact ((reaches_of_token (advance_space (begins_cons hc _) (by omega)) rfl ((hopen _ _).trans hinside) le_rfl).trans
    (reaches_of_token hnext rfl ((hclose _ _).trans hbehind) le_rfl)).trans
      (reaches_of_break (fun p hp => hidle p (hsub hp)) hrest)

/-! ## What is written -/

theorem value_list (h : items ≠ []) (n : Nat) (compact : Bool) : value n compact (.list items) =
    if compact then ' ' :: Writer.list (n + 2) false items else '\n' :: Writer.list n true items := by
  rw [value]
  exact h

theorem value_map (h : entries ≠ []) (n : Nat) (compact : Bool) : value n compact (.map entries) =
    (if compact then ' ' else '\n') :: Writer.map (n + 2) (!compact) entries := by
  rw [value]
  exact h

/-- behind a dash or a colon comes a blank or a break -/
theorem startsBlank_value (n : Nat) (compact : Bool) (t : Tree) (rest : List Char) :
    startsBlank (value n compact t ++ rest) = true := by
  rcases t with _ | s | (_ | ⟨item, items⟩) | (_ | ⟨entry, entries⟩)
  · rfl
  · rw [value]; rfl
  · rfl
  · rw [value_list (by simp)]
    cases compact <;> rfl
  · rfl
  · rw [value_map (by simp)]
    cases compact <;> rfl

/-- a key and its value, in column `n` -/
def entryText (n : Nat) (k : String) (v : Tree) : List Char :=
  if isSimpleKey k then simpleKey k ++ ':' :: value n false v
  else '?' :: ' ' :: (scalarLine (n + 2) k ++ pad n ++ ':' :: value n true v)

theorem map_cons (n : Nat) (indented : Bool) (k : String) (v : Tree) (entries : List (String × Tree)) :
    Writer.map n indented ((k, v) :: entries) =
      (if indented then pad n else []) ++ (entryText n k v ++ Writer.map n true entries) := by
  rw [Writer.map, entryText, List.append_assoc]

theorem list_cons (n : Nat) (indented : Bool) (item : Tree) (items : List Tree) :
    Writer.list n indented (item :: items) =
      (if indented then pad n else []) ++ ('-' :: (value n true item ++ Writer.list n true items)) := by
  rw [Writer.list]

theorem begins_entryText (n : Nat) (k : String) (v : Tree) (rest : List Char) : Begins (entryText n k v ++ rest) := by
  unfold entryText
  split
  · rename_i h
    obtain ⟨c, cs, hkey, hsolid, -⟩ := @token_simpleKey (value n false v ++ rest) k [] [] 0 0 true h
      (startsBlank_value n false v rest) (Nat.zero_le _)
    refine ⟨c, cs, ?_, hsolid⟩
    rw [List.append_assoc, List.cons_append, hkey]
  · exact ⟨'?', _, rfl, by decide⟩

theorem resumes_list (items : List Tree) (h : Resumes n rest) : Resumes n (Writer.list n true items ++ rest) := by
  cases items with
  | nil => exact h
  | cons item items =>
    rw [list_cons, if_pos rfl, List.append_assoc]
    exact (begins_cons (by decide) _).resumes n

theorem resumes_map (entries : List (String × Tree)) (h : Resumes n rest) :
    Resumes n (Writer.map n true entries ++ rest) := by
  cases entries with
  | nil => exact h
  | cons entry entries =>
    obtain ⟨k, v⟩ := entry
    rw [map_cons, if_pos rfl, List.append_assoc, List.append_assoc]
    exact (begins_entryText n k v _).resumes n

/-- at a line that starts in its column, the scan stands there -/
theorem advance_line {cs : List Char} (hcs : Begins cs) (hblocks : blocks.headD 0 ≤ n + 1) :
    (point true ⟨pad n ++ cs, line, 0⟩ blocks out).advance = some (point true ⟨cs, line, n⟩ blocks out) := by
  obtain ⟨c, more, rfl, hsolid⟩ := hcs
  have hadvance := @advance_blank c more line 0 n blocks out true hsolid (by omega)
  rwa [Nat.zero_add] at hadvance

/-- **A key is scanned**, on its line with the colon or on lines of its own; its value comes next. -/
theorem reaches_entry (k : String) (v : Tree) (hblocks : blocks.headD 0 ≤ n + 1)
    (hadvance : s.advance = some (point true ⟨entryText n k v ++ rest, line, n⟩ blocks out)) : ∃ line' column,
      Reaches s (point (!isSimpleKey k) ⟨value n (!isSimpleKey k) v ++ rest, line', column⟩ (opened n blocks)
        (.value :: .scalar k (style k) :: .key :: openedOut n .blockMappingStart blocks out)) ∧ n < column ∧
      (!isSimpleKey k → column = n + 1) := by
  rw [entryText] at hadvance
  cases hsimple : isSimpleKey k with
  | true =>
    rw [hsimple, if_pos rfl, List.append_assoc, List.cons_append] at hadvance
    exact ⟨line, _, reaches_key hsimple (startsBlank_value n false v rest) hblocks hadvance,
      by omega, fun h => by cases h⟩
  | false =>
    rw [hsimple, if_neg (by decide)] at hadvance
    simp only [List.cons_append, List.append_assoc] at hadvance
    have hopened := headD_opened hblocks
    have hcolon : Begins (':' :: (value n true v ++ rest)) := begins_cons (by decide) _
    obtain ⟨line', htext⟩ := @reaches_text _ line (n + 1) n (opened n blocks)
      (.key :: openedOut n .blockMappingStart blocks out) true k hopened (Nat.lt_succ_self n) (hcolon.resumes n)
    exact ⟨line', n + 1, ((reaches_question rfl hadvance).trans htext).trans
      (reaches_colon (startsBlank_value n true v rest) hopened (advance_line hcolon hopened.le)), Nat.lt_succ_self n,
        fun _ => rfl⟩

/-! ## Trees -/

theorem list_indented (hitems : items ≠ []) (n : Nat) :
    Writer.list n true items = pad n ++ Writer.list n false items := by
  obtain ⟨item, items, rfl⟩ := List.exists_cons_of_ne_nil hitems
  rw [list_cons, list_cons, if_pos rfl, if_neg (by decide), List.nil_append]

theorem map_indented (hentries : entries ≠ []) (n : Nat) :
    Writer.map n true entries = pad n ++ Writer.map n false entries := by
  obtain ⟨⟨k, v⟩, entries, rfl⟩ := List.exists_cons_of_ne_nil hentries
  rw [map_cons, map_cons, if_pos rfl, if_neg (by decide), List.nil_append]

theorem begins_list (hitems : items ≠ []) (n : Nat) (rest : List Char) :
    Begins (Writer.list n false items ++ rest) := by
  obtain ⟨item, items, rfl⟩ := List.exists_cons_of_ne_nil hitems
  rw [list_cons, if_neg (by decide)]
  exact begins_cons (by decide) _

theorem begins_map (hentries : entries ≠ []) (n : Nat) (rest : List Char) :
    Begins (Writer.map n false entries ++ rest) := by
  obtain ⟨⟨k, v⟩, entries, rfl⟩ := List.exists_cons_of_ne_nil hentries
  rw [map_cons, if_neg (by decide), List.nil_append, List.append_assoc]
  exact begins_entryText n k v _

/-- behind a colon, the rest of the line is empty, and the value starts in column `k` of the next one -/
theorem reaches_below {k : Nat} {cs : List Char} (hcs : Begins cs) :
    Reaches (point false ⟨'\n' :: (pad k ++ cs), line, column⟩ blocks out)
    (point true ⟨pad k ++ cs, line + 1, 0⟩ blocks out) :=
  reaches_of_break (fun p (hp : p ∈ []) => by cases hp) (hcs.resumes k)

/-- a collection that starts on the line of its dash or colon, or on the next one but farther right, has a block of its
own -/
theorem reaches_nested {start : Token} {inner : List Token} (hblocks : blocks.headD 0 = n + 1) (hrest : Resumes n rest)
    (hreaches : Reaches s (point true ⟨rest, line, 0⟩ (opened (n + 2) blocks)
      (inner.reverse ++ openedOut (n + 2) start blocks out))) :
    Reaches s (point true ⟨rest, line, 0⟩ blocks ((start :: (inner ++ [.blockEnd])).reverse ++ out)) := by
  obtain ⟨hopened, hout⟩ := @opened_of_le (n + 2) blocks out (by omega) start
  rw [hopened, hout] at hreaches
  have hclosing := hreaches.trans (reaches_of_closing (by omega) hrest)
  simpa using hclosing

mutual

/-- **A value is scanned** to its tokens, and what comes next starts a line. -/
theorem reaches_value (t : Tree) {n line column : Nat} {blocks : List Nat} {out : List Token}
    {rest : List Char} {compact : Bool}
    (hblocks : blocks.headD 0 = n + 1) (hcolumn : n < column) (hcompact : compact = true → column = n + 1)
    (hrest : Resumes n rest) : ∃ line',
      Reaches (point compact ⟨value n compact t ++ rest, line, column⟩ blocks out)
        (point true ⟨rest, line', 0⟩ blocks ((t.tokens compact).reverse ++ out)) := by
  match t with
  | .null => exact ⟨line + 1, @reaches_plain _ _ _ _ _ _ _ "null" (by decide) hblocks hcolumn hrest⟩
  | .text s =>
    rw [value, Tree.tokens, List.cons_append]
    exact reaches_text s hblocks hcolumn hrest
  | .list [] => exact ⟨line + 1, @reaches_flow rest line column n blocks out compact '[' ']' .flowSequenceStart
      .flowSequenceEnd (by decide) (by decide) (fun s rest => by simp [token, startsDocumentMark])
      (fun s rest => by simp [token, startsDocumentMark]) hblocks hcolumn hrest⟩
  | .map [] => exact ⟨line + 1, @reaches_flow rest line column n blocks out compact '\x7b' '\x7d' .flowMappingStart
      .flowMappingEnd (by decide) (by decide) (fun s rest => by simp [token, startsDocumentMark])
      (fun s rest => by simp [token, startsDocumentMark]) hblocks hcolumn hrest⟩
  | .list (item :: items) =>
    have hitems : item :: items ≠ [] := by simp
    rw [value_list hitems, Tree.tokens_list hitems]
    cases compact with
    | true =>
      obtain rfl := hcompact rfl
      have hadvance := @advance_space _ line (n + 1) blocks out true (begins_list hitems (n + 2) rest) hblocks.le
      have hfarther : Resumes (n + 2) rest := hrest.mono (by omega)
      obtain ⟨line', hread⟩ := reaches_items (item :: items) hitems (hblocks.le.trans (by omega)) hadvance hfarther
      exact ⟨line', reaches_nested hblocks hrest hread⟩
    | false =>
      -- the items stand in the column of the key, and no block is opened
      obtain ⟨hsame, hout⟩ := @opened_of_eq n blocks out hblocks .blockSequenceStart
      have hhead := begins_list hitems n rest
      obtain ⟨line', hread⟩ := reaches_items (item :: items) hitems hblocks.le (advance_line hhead hblocks.le) hrest
      rw [hsame, hout] at hread
      rw [if_neg (by decide), if_neg (by decide), list_indented hitems, List.cons_append, List.append_assoc]
      exact ⟨line', (reaches_below hhead).trans hread⟩
  | .map (entry :: entries) =>
    have hentries : entry :: entries ≠ [] := by simp
    rw [value_map hentries, Tree.tokens_map hentries]
    have hhead := begins_map hentries (n + 2) rest
    cases compact with
    | true =>
      obtain rfl := hcompact rfl
      have hadvance := @advance_space _ line (n + 1) blocks out true hhead hblocks.le
      have hfarther : Resumes (n + 2) rest := hrest.mono (by omega)
      obtain ⟨line', hread⟩ := reaches_entries (entry :: entries) hentries
        (hblocks.le.trans (by omega)) hadvance hfarther
      exact ⟨line', reaches_nested hblocks hrest hread⟩
    | false =>
      have hinside : blocks.headD 0 ≤ n + 2 + 1 := hblocks.le.trans (by omega)
      have hfarther : Resumes (n + 2) rest := hrest.mono (by omega)
      obtain ⟨line', hread⟩ := @reaches_entries (entry :: entries) hentries _ (n + 2) (line + 1) blocks out rest hinside
        (advance_line hhead hinside) hfarther
      rw [if_neg (by decide), Bool.not_false, map_indented hentries, List.cons_append, List.append_assoc]
      exact ⟨line', reaches_nested hblocks hrest ((reaches_below hhead).trans hread)⟩

theorem reaches_items (items : List Tree) (hitems : items ≠ []) {s : Scan} {n line : Nat} {blocks : List Nat}
    {out : List Token} {rest : List Char} (hblocks : blocks.headD 0 ≤ n + 1)
    (hadvance : s.advance = some (point true ⟨Writer.list n false items ++ rest, line, n⟩ blocks out))
    (hrest : Resumes n rest) : ∃ line', Reaches s (point true ⟨rest, line', 0⟩ (opened n blocks)
      ((Tree.itemTokens items).reverse ++ openedOut n .blockSequenceStart blocks out)) := by
  match items with
  | item :: items =>
    rw [list_cons, if_neg (by decide), List.nil_append, List.cons_append, List.append_assoc] at hadvance
    have hopened := headD_opened hblocks
    have hdash := reaches_dash (startsBlank_value n true item _) hadvance
    obtain ⟨line₁, hitem⟩ := reaches_value item hopened (Nat.lt_succ_self n) (fun _ => rfl) (resumes_list items hrest)
    have hfirst := hdash.trans hitem
    by_cases hnil : items = []
    · subst hnil
      refine ⟨line₁, ?_⟩
      simpa [Tree.itemTokens, Writer.list] using hfirst
    · obtain ⟨hsame, hout⟩ := opened_of_eq hopened .blockSequenceStart
      rw [list_indented hnil, List.append_assoc] at hfirst
      obtain ⟨line₂, htail⟩ := reaches_items items hnil hopened.le
        (advance_line (begins_list hnil n rest) hopened.le) hrest
      rw [hsame, hout] at htail
      refine ⟨line₂, ?_⟩
      simpa [Tree.itemTokens] using hfirst.trans htail

theorem reaches_entries (entries : List (String × Tree)) (hentries : entries ≠ []) {s : Scan} {n line : Nat}
    {blocks : List Nat} {out : List Token} {rest : List Char} (hblocks : blocks.headD 0 ≤ n + 1)
    (hadvance : s.advance = some (point true ⟨Writer.map n false entries ++ rest, line, n⟩ blocks out))
    (hrest : Resumes n rest) : ∃ line', Reaches s (point true ⟨rest, line', 0⟩ (opened n blocks)
      ((Tree.entryTokens entries).reverse ++ openedOut n .blockMappingStart blocks out)) := by
  match entries with
  | (k, v) :: entries =>
    rw [map_cons, if_neg (by decide), List.nil_append, List.append_assoc] at hadvance
    have hopened := headD_opened hblocks
    obtain ⟨line₁, column, hkey, hcolumn, hcompact⟩ := reaches_entry k v hblocks hadvance
    obtain ⟨line₂, hvalue⟩ := reaches_value v hopened hcolumn hcompact (resumes_map entries hrest)
    have hfirst := hkey.trans hvalue
    by_cases hnil : entries = []
    · subst hnil
      refine ⟨line₂, ?_⟩
      simpa [Tree.entryTokens, Writer.map] using hfirst
    · obtain ⟨hsame, hout⟩ := opened_of_eq hopened .blockMappingStart
      rw [map_indented hnil, List.append_assoc] at hfirst
      obtain ⟨line₃, htail⟩ := reaches_entries entries hnil hopened.le
        (advance_line (begins_map hnil n rest) hopened.le) hrest
      rw [hsame, hout] at htail
      refine ⟨line₃, ?_⟩
      simpa [Tree.entryTokens] using hfirst.trans htail

end

/-! ## Documents -/

/-- at the end, the block of the document is closed -/
theorem scans_end : Scans (point true ⟨[], line, 0⟩ [1] out) (.blockEnd :: out).reverse := by
  intro fuel hfuel
  have hadvance : (point true ⟨[], line, 0⟩ [1] out).advance = some (point true ⟨[], line, 0⟩ [1] out) :=
    (@advance_point [] line 0 [1] out fun c hc => by cases hc).trans (congrArg some (closeTo_of_le le_rfl))
  have hlt := hfuel _ hadvance
  obtain ⟨fuel, rfl⟩ : ∃ m, fuel = m + 1 := ⟨fuel - 1, by omega⟩
  rw [run, hadvance]
  rfl

end Scan

/-- **A document is scanned** to the tokens of its map. -/
theorem scan_document {entries : List (String × Tree)} (hentries : entries ≠ []) :
    Token.scan (Tree.document entries) =
      some (.blockMappingStart :: (Tree.entryTokens entries ++ [.blockEnd])) := by
  have hprintable := printable_map 0 true entries
  have hallowed : (Writer.map 0 true entries).all isAllowed = true := by
    rw [List.all_eq_true]
    exact fun c hc => isAllowed_of_isPrintable (List.all_eq_true.1 hprintable c hc)
  have hadvance : (Scan.point true ⟨Writer.map 0 true entries, 0, 0⟩ [] []).advance =
      some (Scan.point true ⟨Writer.map 0 false entries ++ [], 0, 0⟩ [] []) := by
    have hline := @Scan.advance_line 0 0 [] [] _ (Scan.begins_map hentries 0 []) (Nat.zero_le _)
    rw [Scan.map_indented hentries]
    rwa [List.append_nil] at hline ⊢
  obtain ⟨line, hreaches⟩ := Scan.reaches_entries entries hentries (Nat.zero_le _) hadvance (Scan.resumes_nil 0)
  have hscans := hreaches _ Scan.scans_end
  rw [Token.scan, Tree.document, String.toList_ofList, if_pos hallowed, unifyBreaks_of_printable hprintable]
  refine (hscans _ fun s' hs' => ?_).trans ?_
  · exact Nat.lt_succ_of_le (Scan.length_of_advance hs')
  · simp [Scan.openedOut]

end Fleet.Yaml
