/-
What the scan does between two tokens and with a scalar.

The scan goes from one token to the next. What lies between two tokens only matters for where the next one stands, so
that a state at the end of a line is as good as one at the start of the next (`reaches_of_advance`).
- `Reaches`: what one state is scanned to, another one is, too. This is what is composed, so that no count of steps is
  kept.
- `reaches_of_crossed`, `reaches_of_break`, `reaches_of_closing`: the ends of lines and of blocks.
- `token_double`, `token_single`, `plainToken_colon`, `plainToken_line`, `token_literal`: a scalar is one token.
- `reaches_text`: in whatever style a text is written, the scan reads it, and stands at the start of the next line.
-/
import Fleet.Proofs.Yaml.Block

namespace Fleet.Yaml

open Writer

namespace Scan

variable {s s' s₁ s₂ : Scan} {c : Char} {cs rest after tail : List Char} {line column k n : Nat} {blocks : List Nat}
  {out tokens : List Token} {keyAllowed : Bool} {keys : List KeyPlace}

/-! ## Going on -/

/-- with fuel for all that is left, the scan ends with these tokens -/
def Scans (s : Scan) (tokens : List Token) : Prop :=
  ∀ fuel, (∀ s', s.advance = some s' → s'.cursor.rest.length < fuel) → run fuel s = some tokens

/-- what the second state is scanned to, the first one is, too -/
def Reaches (s s' : Scan) : Prop := ∀ tokens, Scans s' tokens → Scans s tokens

theorem Reaches.trans (h : Reaches s s₁) (h' : Reaches s₁ s₂) : Reaches s s₂ :=
  fun tokens hscans => h tokens (h' tokens hscans)

/-- only the next token counts -/
theorem reaches_of_advance (h : s.advance = s'.advance) : Reaches s s' := by
  intro tokens hscans fuel hfuel
  have hrun : run fuel s = run fuel s' := by
    cases fuel with
    | zero => rfl
    | succ fuel => rw [run, run, h]
  rw [hrun]
  exact hscans fuel fun s₁ hs₁ => hfuel s₁ (h.trans hs₁)

theorem length_skipBlank (inFlow inComment : Bool) (cs : List Char) :
    (skipBlank inFlow keyAllowed inComment line column cs).2.rest.length ≤ cs.length := by
  induction cs generalizing keyAllowed inComment line column with
  | nil => exact le_rfl
  | cons c cs ih =>
    rw [skipBlank]
    split
    · exact (ih _).trans (Nat.le_succ _)
    · split
      · exact (ih _).trans (Nat.le_succ _)
      · split
        · exact (ih _).trans (Nat.le_succ _)
        · exact le_rfl

theorem cursor_closeTo (s : Scan) (edge : Nat) : (s.closeTo edge).cursor = s.cursor := by
  unfold closeTo
  split <;> rfl

theorem length_of_advance (h : s.advance = some s') : s'.cursor.rest.length ≤ s.cursor.rest.length := by
  obtain ⟨keys, -, rfl⟩ := Option.map_eq_some_iff.1 h
  rw [cursor_closeTo]
  exact length_skipBlank _ _ _

theorem reaches_of_token (hadvance : s.advance = some s₁) (hrest : s₁.cursor.rest = c :: rest)
    (htoken : s₁.token c rest = some s₂) (hlength : s₂.cursor.rest.length ≤ rest.length) : Reaches s s₂ := by
  intro tokens hscans fuel hfuel
  have hlt := hfuel s₁ hadvance
  rw [hrest, List.length_cons] at hlt
  obtain ⟨fuel, rfl⟩ : ∃ m, fuel = m + 1 := ⟨fuel - 1, by omega⟩
  rw [run, hadvance]
  simp only [hrest, htoken]
  refine hscans fuel fun s₃ hs₃ => ?_
  have := length_of_advance hs₃
  omega

/-! ## Between tokens -/

theorem skipBlank_pad (inFlow : Bool) (k : Nat) : skipBlank inFlow keyAllowed false line column (pad k ++ rest) =
    skipBlank inFlow keyAllowed false line (column + k) rest := by
  induction k generalizing column with
  | zero => rfl
  | succ k ih =>
    rw [pad, List.replicate_succ, List.cons_append, skipBlank, if_neg (by decide), if_pos (by simp)]
    refine ih.trans ?_
    rw [Nat.add_assoc, Nat.add_comm 1 k]

theorem skipBlank_solid (inFlow : Bool) (h : Solid c) : skipBlank inFlow keyAllowed false line column (c :: rest) =
    (keyAllowed, ⟨c :: rest, line, column⟩) := by
  obtain ⟨hblank, hbreak, hhash, hmark⟩ := h
  simp only [isGapChar, Bool.or_eq_false_iff, decide_eq_false_iff_not] at hblank
  rw [skipBlank, if_neg (by simp [hbreak]), if_neg (by simp [hblank.1, hblank.2, hmark]), if_neg hhash]

/-- what comes next, at the end of a line: nothing, or a token in its column -/
theorem skipBlank_after (h : ∀ c ∈ after.head?, Solid c) (inFlow : Bool) :
    skipBlank inFlow keyAllowed false line column after = (keyAllowed, ⟨after, line, column⟩) := by
  cases after with
  | nil => rfl
  | cons c after => exact skipBlank_solid inFlow (h c rfl)

theorem closeTo_of_le (h : s.blocks.headD 0 ≤ k) : s.closeTo k = s := by
  have hnone : s.blocks.takeWhile (k < ·) = [] := by
    cases hblocks : s.blocks with
    | nil => rfl
    | cons b blocks =>
      rw [hblocks, List.headD_cons] at h
      exact List.takeWhile_cons_of_neg (by simpa using h)
  rw [closeTo, hnone]
  split <;> rfl

/-- a state between tokens, outside of flow collections and without places for keys -/
def point (keyAllowed : Bool) (cursor : Cursor) (blocks : List Nat) (out : List Token) : Scan :=
  { cursor, out, count := out.length, blocks, flow := 0, keyAllowed, keys := [] }

theorem advance_blank (h : Solid c) (hblocks : blocks.headD 0 ≤ column + k + 1) :
    (point keyAllowed ⟨pad k ++ c :: rest, line, column⟩ blocks out).advance =
      some (point keyAllowed ⟨c :: rest, line, column + k⟩ blocks out) := by
  have hskip : skipBlank false keyAllowed false line column (pad k ++ c :: rest) =
      (keyAllowed, ⟨c :: rest, line, column + k⟩) := (skipBlank_pad false k).trans (skipBlank_solid false h)
  simp only [advance, point, inFlow, Nat.lt_irrefl, decide_false, hskip, dropStale, Option.map_some]
  exact congrArg some (closeTo_of_le hblocks)

/-! ## Ends of lines -/

/-- what comes next is the end, or a token in this column or farther left -/
def Resumes (n : Nat) (rest : List Char) : Prop :=
  ∃ k after, rest = pad k ++ after ∧ k ≤ n ∧ ∀ c ∈ after.head?, Solid c

theorem Resumes.mono (h : Resumes k rest) (hle : k ≤ n) : Resumes n rest := by
  obtain ⟨j, after, hrest, hj, hafter⟩ := h
  exact ⟨j, after, hrest, hj.trans hle, hafter⟩

theorem resumes_nil (n : Nat) : Resumes n [] := ⟨0, [], rfl, Nat.zero_le n, fun c hc => by cases hc⟩

/-- a token starts here -/
def Begins (cs : List Char) : Prop := ∃ c more, cs = c :: more ∧ Solid c

theorem begins_cons (h : Solid c) (rest : List Char) : Begins (c :: rest) := ⟨c, rest, rfl, h⟩

theorem Begins.resumes (h : Begins cs) (n : Nat) : Resumes n (pad n ++ cs) := by
  obtain ⟨c, more, rfl, hsolid⟩ := h
  exact ⟨n, _, rfl, le_rfl, fun d hd => by cases hd; exact hsolid⟩

/-- these places are void after their lines, and no keys have to be there -/
def Idle (keys : List KeyPlace) (line : Nat) : Prop := ∀ p ∈ keys, p.required = false ∧ p.line < line

theorem Idle.dropStale (h : Idle keys line) (column : Nat) : dropStale line column keys = some [] := by
  induction keys with
  | nil => rfl
  | cons p keys ih =>
    obtain ⟨hrequired, hline⟩ := h p List.mem_cons_self
    rw [Scan.dropStale, if_pos (by simp [hline]), if_neg (by simp [hrequired])]
    exact ih fun q hq => h q (List.mem_cons_of_mem _ hq)

theorem advance_point (hafter : ∀ c ∈ after.head?, Solid c) :
    (point true ⟨pad k ++ after, line, 0⟩ blocks out).advance =
      some ((point true ⟨after, line, k⟩ blocks out).closeTo (k + 1)) := by
  have hskip : skipBlank false true false line 0 (pad k ++ after) = (true, ⟨after, line, k⟩) := by
    rw [skipBlank_pad, Nat.zero_add, skipBlank_after hafter]
  simp only [advance, point, inFlow, Nat.lt_irrefl, decide_false, hskip, dropStale, Option.map_some]

/-- a state with places for keys, which are void from the next line on -/
def pointWith (keys : List KeyPlace) (keyAllowed : Bool) (cursor : Cursor) (blocks : List Nat)
    (out : List Token) : Scan :=
  { point keyAllowed cursor blocks out with keys }

/-- behind a scalar that has been read up to the next token, the scan goes on as at the start of that line -/
theorem reaches_of_crossed (hkeys : Idle keys line) (hafter : ∀ c ∈ after.head?, Solid c) :
    Reaches (pointWith keys true ⟨after, line, k⟩ blocks out) (point true ⟨pad k ++ after, line, 0⟩ blocks out) := by
  refine reaches_of_advance ?_
  rw [advance_point hafter]
  simp only [advance, pointWith, point, inFlow, Nat.lt_irrefl, decide_false, skipBlank_after hafter, hkeys.dropStale,
    Option.map_some]

/-- at a break, the scan goes on as at the start of the next line -/
theorem reaches_of_break (hkeys : Idle keys (line + 1)) (hrest : Resumes n rest) :
    Reaches (pointWith keys keyAllowed ⟨'\n' :: rest, line, column⟩ blocks out)
      (point true ⟨rest, line + 1, 0⟩ blocks out) := by
  obtain ⟨k, after, rfl, -, hafter⟩ := hrest
  have hskip : skipBlank false keyAllowed false line column ('\n' :: (pad k ++ after)) =
      (true, ⟨after, line + 1, k⟩) := by
    rw [skipBlank, if_pos (by decide), skipBlank_pad, Nat.zero_add, skipBlank_after hafter]
    simp
  refine reaches_of_advance ?_
  rw [advance_point hafter]
  simp only [advance, pointWith, point, inFlow, Nat.lt_irrefl, decide_false, hskip, hkeys.dropStale, Option.map_some]

/-- a block is closed by what stands farther left -/
theorem reaches_of_closing {b : Nat} (hb : n + 1 < b) (hrest : Resumes n rest) :
    Reaches (point true ⟨rest, line, 0⟩ (b :: blocks) out) (point true ⟨rest, line, 0⟩ blocks (.blockEnd :: out)) := by
  obtain ⟨k, after, rfl, hk, hafter⟩ := hrest
  refine reaches_of_advance ?_
  rw [advance_point hafter, advance_point hafter]
  have htake : (b :: blocks).takeWhile (k + 1 < ·) = b :: blocks.takeWhile (k + 1 < ·) :=
    List.takeWhile_cons_of_pos (by simp; omega)
  simp only [closeTo, point, inFlow, Nat.lt_irrefl, decide_false, Bool.false_eq_true, if_false, htake, List.length_cons,
    List.drop_succ_cons, List.replicate_succ', List.append_assoc, List.singleton_append, Nat.add_assoc, Nat.add_comm 1]

/-! ## Scalars -/

/-- the place that is remembered before a token outside of all flow collections -/
def placeAt (cursor : Cursor) (blocks : List Nat) (out : List Token) : KeyPlace where
  number := out.length
  level := 0
  line := cursor.line
  column := cursor.column
  reach := cursor.column + charsWithin keyOctets cursor.rest
  required := blocks.headD 0 = cursor.column + 1

/-- the places that are remembered if a key may start here -/
def placesAt (keyAllowed : Bool) (cursor : Cursor) (blocks : List Nat) (out : List Token) : List KeyPlace :=
  if keyAllowed then [placeAt cursor blocks out] else []

theorem rememberKey_point (keyAllowed : Bool) (cursor : Cursor) (blocks : List Nat) (out : List Token) :
    (point keyAllowed cursor blocks out).rememberKey =
      some (pointWith (placesAt keyAllowed cursor blocks out) keyAllowed cursor blocks out) := by
  cases keyAllowed with
  | false => rfl
  | true =>
    simp [rememberKey, point, pointWith, placesAt, placeAt, forgetKey, splitKeys, inFlow, indent]

theorem idle_placesAt {cursor : Cursor} (hblocks : blocks.headD 0 ≤ cursor.column) (hline : cursor.line < line) :
    Idle (placesAt keyAllowed cursor blocks out) line := by
  intro p hp
  cases keyAllowed with
  | false => cases hp
  | true =>
    obtain rfl := List.mem_singleton.1 hp
    exact ⟨decide_eq_false (by omega), hline⟩

/-- **Double quotes** -/
theorem token_double (keyAllowed : Bool) (text : String) :
    (point keyAllowed ⟨double text.toList ++ rest, line, column⟩ blocks out).token '"'
        (text.toList.flatMap escape ++ ['"'] ++ rest) =
      some (pointWith (placesAt keyAllowed ⟨double text.toList ++ rest, line, column⟩ blocks out) false
        ⟨rest, line, column + (double text.toList).length⟩ blocks (.scalar text .double :: out)) := by
  have htoken : (point keyAllowed ⟨double text.toList ++ rest, line, column⟩ blocks out).token '"'
      (text.toList.flatMap escape ++ ['"'] ++ rest) =
      (point keyAllowed ⟨double text.toList ++ rest, line, column⟩ blocks out).quotedToken true := by
    simp [token, startsDocumentMark]
  have hread : doubleFrom .text [] {} line (column + 1) (text.toList.flatMap escape ++ ['"'] ++ rest) =
      some ⟨text, false, ⟨rest, line, column + (double text.toList).length⟩⟩ := by
    rw [List.append_assoc, List.singleton_append, doubleFrom_double _ _ (Nat.succ_ne_zero _), String.ofList_toList]
    simp [double, Nat.add_assoc, Nat.add_comm 1]
  rw [htoken, quotedToken, rememberKey_point]
  simp only [Option.bind_eq_bind, Option.bind_some, pointWith, point, Cursor.skip, double, List.cons_append,
    List.drop_succ_cons, List.drop_zero, if_true, hread]
  rfl

/-- **Single quotes** -/
theorem token_single {indent : Nat} {text : String} (hsuits : Suits text .single) (hrest : rest.head? ≠ some '\'')
    (hindent : indent ≠ 0 ∨ hasBreak text.toList = false) : ∃ line' column',
      (point keyAllowed ⟨single indent text.toList ++ rest, line, column⟩ blocks out).token '\''
          (singleBody indent false text.toList ++ ['\''] ++ rest) =
        some (pointWith (placesAt keyAllowed ⟨single indent text.toList ++ rest, line, column⟩ blocks out) false
          ⟨rest, line', column'⟩ blocks (.scalar text .single :: out)) ∧ line ≤ line' ∧
      (hasBreak text.toList = false → line' = line ∧ column' = column + (single indent text.toList).length) := by
  obtain ⟨line', column', hread, hline, hplain⟩ :=
    @singleFrom_single rest line (column + 1) text indent hsuits hrest hindent (Nat.succ_ne_zero _)
  refine ⟨line', column', ?_, hline, fun h => ?_⟩
  · have htoken : (point keyAllowed ⟨single indent text.toList ++ rest, line, column⟩ blocks out).token '\''
        (singleBody indent false text.toList ++ ['\''] ++ rest) =
        (point keyAllowed ⟨single indent text.toList ++ rest, line, column⟩ blocks out).quotedToken false := by
      simp [token, startsDocumentMark]
    have hsame : singleBody indent false text.toList ++ ['\''] ++ rest =
        singleBody indent false text.toList ++ '\'' :: rest := by
      simp
    rw [htoken, quotedToken, rememberKey_point]
    simp only [Option.bind_eq_bind, Option.bind_some, pointWith, point, Cursor.skip, single, List.cons_append,
      List.drop_succ_cons, List.drop_zero, Bool.false_eq_true, if_false, hsame, hread]
    rfl
  · obtain ⟨hsame, hwidth⟩ := hplain h
    refine ⟨hsame, hwidth.trans ?_⟩
    simp [single, Nat.add_assoc, Nat.add_comm 1]

/-- what stands behind a text on its line: the colon of a key, or the break -/
def Follows (tail : List Char) : Prop := tail.head? = some ':' ∨ tail.head? = some '\n'

theorem startsBlank_append (h : blankNext cs = false) (tail : List Char) : startsBlank (cs ++ tail) = false := by
  have hblank := startsBlank_of_blankNext h
  cases cs with
  | nil => cases hblank
  | cons c cs => exact hblank

/-- three marks at the start of a text are its own -/
theorem startsDocumentMark_append (h : startsLikeToken cs = false) (htail : Follows tail) :
    startsDocumentMark (cs ++ tail) = false := by
  have hhead : ∀ d ∈ tail.head?, d ≠ '-' ∧ d ≠ '.' := by
    rintro d hd
    rcases htail with h | h <;> cases h.symm.trans hd <;> decide
  unfold startsDocumentMark
  split
  · rename_i heq
    rcases cs with _ | ⟨a, _ | ⟨b, _ | ⟨d, cs⟩⟩⟩
    · cases h
    · cases heq; exact absurd rfl (hhead '-' rfl).1
    · cases heq; exact absurd rfl (hhead '-' rfl).1
    · cases heq; cases h
  · rename_i heq
    rcases cs with _ | ⟨a, _ | ⟨b, _ | ⟨d, cs⟩⟩⟩
    · cases h
    · cases heq; exact absurd rfl (hhead '.' rfl).2
    · cases heq; exact absurd rfl (hhead '.' rfl).2
    · cases heq; cases h
  · rfl

theorem startsLikeToken_cons (h : startsLikeToken (c :: cs) = false) : isLeadingIndicator c = false ∧
    (c = '-' ∨ c = '?' → blankNext cs = false) := by
  unfold startsLikeToken at h
  split at h
  · cases h
  · cases h
  · rename_i d rest _ _ heq
    cases heq
    simp only [Bool.or_eq_false_iff, Bool.and_eq_false_iff, decide_eq_false_iff_not] at h
    refine ⟨h.1, fun hc => h.2.resolve_left fun hnot => ?_⟩
    tauto
  · rename_i heq
    cases heq

/-- the first character of a plain text starts a token -/
theorem solid_of_allowsPlain (h : allowsPlain (c :: cs) = true) : Solid c := by
  simp only [allowsPlain, Bool.and_eq_true, Bool.not_eq_true'] at h
  obtain ⟨⟨⟨⟨⟨⟨-, hprintable⟩, hbreak⟩, hstart⟩, -⟩, htoken⟩, -⟩ := h
  rw [allPrintable, List.all_cons, Bool.and_eq_true] at hprintable
  rw [hasBreak, List.any_cons, Bool.or_eq_false_iff] at hbreak
  obtain ⟨hindicator, -⟩ := startsLikeToken_cons htoken
  refine ⟨isGapChar_of_isPrintable hprintable.1 ?_, hbreak.1, ?_, (ne_of_isPrintable hprintable.1).2.2.2.1⟩
  · rintro rfl
    cases hstart
  · rintro rfl
    cases hindicator

/-- a plain text is scanned as one -/
theorem token_plain (hplain : allowsPlain (c :: cs) = true) (htail : Follows tail) {cursor : Cursor} :
    (point keyAllowed cursor blocks out).token c (cs ++ tail) = (point keyAllowed cursor blocks out).plainToken := by
  have hsolid := solid_of_allowsPlain hplain
  simp only [allowsPlain, Bool.and_eq_true, Bool.not_eq_true'] at hplain
  obtain ⟨⟨-, htoken⟩, hinner⟩ := hplain
  obtain ⟨hindicator, hdash⟩ := startsLikeToken_cons htoken
  obtain ⟨-, hcolon, -⟩ := hasInnerIndicator_cons hinner
  have hmark : startsDocumentMark (c :: (cs ++ tail)) = false := startsDocumentMark_append htoken htail
  have hnext : c = '-' ∨ c = '?' ∨ c = ':' → startsBlank (cs ++ tail) = false := fun h => by
    rcases h with h | h | h
    · exact startsBlank_append (hdash (.inl h)) tail
    · exact startsBlank_append (hdash (.inr h)) tail
    · exact startsBlank_append (hcolon h) tail
  have hstarts : startsPlain false c (cs ++ tail) = true := by
    by_cases hc : c = '-' ∨ c = '?' ∨ c = ':'
    · have hblank := hnext hc
      rcases hc with rfl | rfl | rfl
      · have hgap : ((cs ++ tail).head?.map isGapChar).getD false = false := by
          cases hrest : cs ++ tail with
          | nil => rfl
          | cons d l =>
            rw [hrest] at hblank
            exact (Bool.or_eq_false_iff.1 hblank).1
        rw [startsPlain, hgap]
        rfl
      · simp [startsPlain, hblank]
      · simp [startsPlain, hblank]
    · have hfirst : isGapOrBreak c = false := by rw [isGapOrBreak, hsolid.1, hsolid.2.1]; rfl
      have hnot : isIndicator c = false := by
        simp only [isLeadingIndicator, Bool.or_eq_false_iff, decide_eq_false_iff_not] at hindicator
        simp only [not_or] at hc
        simp [isIndicator, hindicator, hc]
      simp [startsPlain, hfirst, hnot]
  have hdashes : ∀ d, d = '-' ∨ d = '?' ∨ d = ':' → (decide (c = d) && startsBlank (cs ++ tail)) = false := by
    intro d hd
    by_cases hc : c = d
    · rw [hnext (hc ▸ hd), Bool.and_false]
    · simp [hc]
  simp only [isLeadingIndicator, isFlowIndicator, Bool.or_eq_false_iff, decide_eq_false_iff_not] at hindicator
  simp only [token, point, inFlow, Nat.lt_irrefl, decide_false, Bool.false_or, hmark, hdashes '-' (.inl rfl),
    hdashes '?' (.inr (.inl rfl)), hdashes ':' (.inr (.inr rfl)), hstarts]
  simp [hindicator]

/-- **Plain texts before a colon** -/
theorem plainToken_colon {text : String} (hplain : allowsPlain text.toList = true)
    (hblocks : blocks.headD 0 ≤ column + 1) (hrest : startsBlank rest = true) :
    (point keyAllowed ⟨text.toList ++ ':' :: rest, line, column⟩ blocks out).plainToken =
      some (pointWith (placesAt keyAllowed ⟨text.toList ++ ':' :: rest, line, column⟩ blocks out) false
        ⟨':' :: rest, line, column + text.toList.length⟩ blocks (.scalar text .plain :: out)) := by
  rw [plainToken, rememberKey_point]
  have hread := @plainFrom_colon rest line column text (blocks.headD 0) hplain hblocks hrest
  simp only [Option.bind_eq_bind, Option.bind_some, pointWith, point, inFlow, Nat.lt_irrefl, decide_false,
    indent, hread]
  rfl

/-- **Plain texts at the end of a line** -/
theorem plainToken_line {text : String} (hplain : allowsPlain text.toList = true)
    (hblocks : blocks.headD 0 ≤ column + 1) (hk : k < blocks.headD 0) (hafter : ∀ c ∈ after.head?, Solid c) :
    (point keyAllowed ⟨text.toList ++ '\n' :: (pad k ++ after), line, column⟩ blocks out).plainToken =
      some (pointWith (placesAt keyAllowed ⟨text.toList ++ '\n' :: (pad k ++ after), line, column⟩ blocks out) true
        ⟨after, line + 1, k⟩ blocks (.scalar text .plain :: out)) := by
  rw [plainToken, rememberKey_point]
  have hread := @plainFrom_line line column text (blocks.headD 0) k after hplain hblocks hk hafter
  simp only [Option.bind_eq_bind, Option.bind_some, pointWith, point, inFlow, Nat.lt_irrefl, decide_false,
    indent, hread]
  rfl

/-- **Block scalars** -/
theorem token_literal {text : String} (hsuits : Suits text .literal) (hparent : 0 < blocks.headD 0)
    (hk : k < blocks.headD 0) (hafter : ∀ c ∈ after.head?, Solid c) : ∃ line',
      (point keyAllowed ⟨literal (blocks.headD 0 + 1) text.toList ++ (pad k ++ after), line, column⟩ blocks out).token
        '|' (blockHints text.toList ++ '\n' :: blockLines (blocks.headD 0 + 1) true text.toList ++ (pad k ++ after)) =
        some (point true ⟨after, line', k⟩ blocks (.scalar text .literal :: out)) ∧ line < line' := by
  obtain ⟨line', hread, hline⟩ := @blockScalar_literal line (column + 1) text
    (blocks.headD 0) k after hsuits hparent hk.le hafter
  refine ⟨line', ?_, hline⟩
  have htoken :
      (point keyAllowed ⟨literal (blocks.headD 0 + 1) text.toList ++ (pad k ++ after), line, column⟩ blocks out).token
        '|' (blockHints text.toList ++ '\n' :: blockLines (blocks.headD 0 + 1) true text.toList ++ (pad k ++ after)) =
      (point keyAllowed ⟨literal (blocks.headD 0 + 1) text.toList ++ (pad k ++ after), line, column⟩
        blocks out).blockScalarToken true := by
    simp [token, startsDocumentMark, point, inFlow]
  have hskip : Cursor.skip ⟨literal (blocks.headD 0 + 1) text.toList ++ (pad k ++ after), line, column⟩ 1 =
      ⟨blockHints text.toList ++ '\n' :: (blockLines (blocks.headD 0 + 1) true text.toList ++ (pad k ++ after)), line,
        column + 1⟩ := by
    simp [Cursor.skip, literal]
  rw [htoken, blockScalarToken]
  have hforget : ∀ cursor, (point keyAllowed cursor blocks out).forgetKey = some (point keyAllowed cursor blocks out) :=
    fun _ => rfl
  simp only [Option.bind_eq_bind, hforget, Option.bind_some, indent]
  simp only [point, hskip, hread]
  rfl

/-- a character behind a blank is where the scan stands next -/
theorem advance_space (h : Begins cs) (hblocks : blocks.headD 0 ≤ column) :
    (point keyAllowed ⟨' ' :: cs, line, column⟩ blocks out).advance =
      some (point keyAllowed ⟨cs, line, column + 1⟩ blocks out) := by
  obtain ⟨c, more, rfl, hsolid⟩ := h
  have hpad := @advance_blank c more line column 1 blocks out keyAllowed hsolid (by omega)
  exact hpad

theorem idle_behind_space (hblocks : blocks.headD 0 = n + 1) (hcolumn : n < column) {line' : Nat}
    (hline : line < line') : Idle (placesAt keyAllowed ⟨cs, line, column + 1⟩ blocks out) line' :=
  idle_placesAt (hblocks.le.trans (by omega : n + 1 ≤ column + 1)) hline

theorem reaches_plain {text : String} (hplain : allowsPlain text.toList = true) (hblocks : blocks.headD 0 = n + 1)
    (hcolumn : n < column) (hrest : Resumes n rest) :
    Reaches (point keyAllowed ⟨' ' :: (text.toList ++ '\n' :: rest), line, column⟩ blocks out)
      (point true ⟨rest, line + 1, 0⟩ blocks (.scalar text .plain :: out)) := by
  obtain ⟨k, after, rfl, hk, hafter⟩ := hrest
  have hread := @plainToken_line after line (column + 1) k blocks out keyAllowed text hplain (by omega)
    (by omega) hafter
  cases htext : text.toList with
  | nil =>
    rw [htext] at hplain
    cases hplain
  | cons c cs =>
    rw [htext] at hplain hread
    refine (reaches_of_token (advance_space (begins_cons (solid_of_allowsPlain hplain) _) (by omega)) rfl
      ((token_plain hplain (.inr rfl)).trans hread) ?_).trans
        (reaches_of_crossed (idle_behind_space hblocks hcolumn (Nat.lt_succ_self _)) hafter)
    simp [pointWith, point]
    omega

/-- **A text on a line of its own**, behind a blank: the scan goes on at the next line. -/
theorem reaches_text (text : String) (hblocks : blocks.headD 0 = n + 1) (hcolumn : n < column)
    (hrest : Resumes n rest) :
    ∃ line', Reaches (point keyAllowed ⟨' ' :: (scalarLine (n + 2) text ++ rest), line, column⟩ blocks out)
      (point true ⟨rest, line', 0⟩ blocks (.scalar text (style text) :: out)) := by
  have hsuits := suits_style text
  rw [scalarLine]
  generalize style text = way at hsuits
  cases hsuits with
  | plain hplain hmeaning =>
    simp only [List.append_assoc, List.singleton_append]
    exact ⟨line + 1, reaches_plain hplain hblocks hcolumn hrest⟩
  | single hsingle hbreak =>
    obtain ⟨line', column', hread, hline, -⟩ :=
      @token_single ('\n' :: rest) line (column + 1) blocks out keyAllowed (n + 2)
      text (.single hsingle hbreak) (by simp) (.inl (by omega))
    simp only [List.append_assoc, List.singleton_append]
    refine ⟨line' + 1, (reaches_of_token (advance_space (begins_cons (by decide) _) (by omega)) rfl hread ?_).trans
      (reaches_of_break (idle_behind_space hblocks hcolumn (Nat.lt_succ_of_le hline)) hrest)⟩
    simp [pointWith, point]
    omega
  | double =>
    have hread := @token_double ('\n' :: rest) line (column + 1) blocks out keyAllowed text
    simp only [List.append_assoc, List.singleton_append]
    refine ⟨line + 1, (reaches_of_token (advance_space (begins_cons (by decide) _) (by omega)) rfl hread ?_).trans
      (reaches_of_break (idle_behind_space hblocks hcolumn (Nat.lt_succ_self _)) hrest)⟩
    simp [pointWith, point]
    omega
  | literal hblock hbreak =>
    obtain ⟨k, after, rfl, hk, hafter⟩ := hrest
    obtain ⟨line', hread, hline⟩ := @token_literal after line (column + 1) k blocks out keyAllowed text
      (.literal hblock hbreak) (by omega) (by omega) hafter
    rw [hblocks] at hread
    refine ⟨line', (reaches_of_token (advance_space (begins_cons (by decide) _) (by omega)) rfl hread ?_).trans
      (reaches_of_crossed (fun p (hp : p ∈ []) => by cases hp) hafter)⟩
    simp [point]
    omega

end Scan
end Fleet.Yaml
