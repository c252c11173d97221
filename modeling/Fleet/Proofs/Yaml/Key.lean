/-
Keys: a key on one line with its colon.

Whether a scalar is a key only shows at the colon behind it. By then it must not have gone out of reach: it has to be on
the same line still, and within 1024 octets.
- `reach_simpleKey`: what is written for a simple key, of at most 128 octets, is within reach, however much of it is
  escaped.
- `reaches_key`: so it is scanned as a key, and opens a block if it stands inside the last one.
-/
import Mathlib.Data.String.Basic
import Fleet.Proofs.Yaml.Scan

namespace Fleet.Yaml

open Writer

variable {c : Char} {cs rest tail : List Char} {k : String}

/-! ## Widths -/

theorem utf8Len_of_marks (h : cs.all isMark = true) : String.utf8Len cs = cs.length := by
  induction cs with
  | nil => rfl
  | cons c cs ih =>
    rw [List.all_cons, Bool.and_eq_true] at h
    have hsize : c.utf8Size = 1 := by
      have hmark := h.1
      simp only [isMark, Bool.and_eq_true, decide_eq_true_eq] at hmark
      have hle : c.val ≤ UInt32.ofNatLT 127 (by decide) := UInt32.le_iff_toNat_le.2 (hmark.2.trans (by decide))
      exact if_pos hle
    rw [String.utf8Len_cons, ih h.2, hsize, List.length_cons]

theorem lt_of_utf8Size (c : Char) : (0xFF < c.toNat → 2 ≤ c.utf8Size) ∧ (0xFFFF < c.toNat → 4 ≤ c.utf8Size) := by
  have hle : ∀ n (h : n < UInt32.size), c.val ≤ UInt32.ofNatLT n h → c.toNat ≤ n := fun n h hle => by
    have := UInt32.le_iff_toNat_le.1 hle
    rwa [UInt32.toNat_ofNatLT] at this
  unfold Char.utf8Size
  simp only
  split
  · rename_i h
    have := hle _ _ h
    omega
  · split
    · rename_i h
      have := hle _ _ h
      omega
    · split
      · rename_i h
        have := hle _ _ h
        omega
      · omega

/-- an escape takes at most four octets for each octet of the character -/
theorem utf8Len_escape_le (c : Char) : String.utf8Len (escape c) ≤ 4 * c.utf8Size := by
  have hpositive := c.utf8Size_pos
  obtain ⟨htwo, hfour⟩ := lt_of_utf8Size c
  unfold escape
  split
  · simp
    omega
  · split
    · rename_i e he
      rw [utf8Len_of_marks (marks_cons (by decide) (marks_cons (isMark_of_shortEscape? he) rfl))]
      simp only [List.length_cons, List.length_nil]
      omega
    · have hcode : ∀ letter width, isMark letter = true →
          String.utf8Len ('\\' :: letter :: hexDigits c.toNat width) = width + 2 := fun letter width h => by
        rw [utf8Len_of_marks (marks_cons (by decide) (marks_cons h (marks_hexDigits _ _)))]
        simp [length_hexDigits]
      simp only
      split
      · rw [hcode 'x' 2 (by decide)]
        omega
      · split
        · rw [hcode 'u' 4 (by decide)]
          omega
        · rw [hcode 'U' 8 (by decide)]
          omega

theorem utf8Len_double_le (cs : List Char) : String.utf8Len (double cs) ≤ 4 * String.utf8Len cs + 2 := by
  have hbody : String.utf8Len (cs.flatMap escape) ≤ 4 * String.utf8Len cs := by
    induction cs with
    | nil => exact le_rfl
    | cons c cs ih =>
      have := utf8Len_escape_le c
      rw [List.flatMap_cons, String.utf8Len_append, String.utf8Len_cons]
      omega
  have hquote : '"'.utf8Size = 1 := by decide
  rw [double, String.utf8Len_cons, String.utf8Len_append, String.utf8Len_cons, String.utf8Len_nil, hquote]
  omega

theorem utf8Len_single_le (hbreak : hasBreak cs = false) :
    String.utf8Len (single 0 cs) ≤ 2 * String.utf8Len cs + 2 := by
  have hquote : '\''.utf8Size = 1 := by decide
  have hbody : String.utf8Len (singleBody 0 false cs) ≤ 2 * String.utf8Len cs := by
    induction cs with
    | nil => exact le_rfl
    | cons c cs ih =>
      rw [hasBreak, List.any_cons, Bool.or_eq_false_iff] at hbreak
      have hrest := ih hbreak.2
      rw [singleBody_cons hbreak.1, if_neg Bool.false_ne_true, List.nil_append, String.utf8Len_append, String.utf8Len_cons]
      split
      · rename_i hc
        simp only [String.utf8Len_cons, String.utf8Len_nil, hc, hquote]
        omega
      · simp only [String.utf8Len_cons, String.utf8Len_nil]
        omega
  rw [single, String.utf8Len_cons, String.utf8Len_append, String.utf8Len_cons, String.utf8Len_nil, hquote]
  omega

/-! ## One line -/

theorem hasBreak_append (cs cs' : List Char) : hasBreak (cs ++ cs') = (hasBreak cs || hasBreak cs') := List.any_append

theorem hasBreak_of_marks (h : cs.all isMark = true) : hasBreak cs = false := by
  rw [hasBreak, List.any_eq_false]
  intro c hc hbreak
  have hmark := List.all_eq_true.1 h c hc
  simp only [isLineBreak, isBreak, Bool.or_eq_true, decide_eq_true_eq] at hbreak
  rcases hbreak with (rfl | rfl) | rfl <;> revert hmark <;> decide

theorem hasBreak_escape (c : Char) : hasBreak (escape c) = false := by
  obtain ⟨-, hbreak, hescape⟩ | hmarks := escape_cases c
  · simp [hescape, hasBreak, hbreak]
  · exact hasBreak_of_marks hmarks

theorem hasBreak_double (cs : List Char) : hasBreak (double cs) = false := by
  have hbody : hasBreak (cs.flatMap escape) = false := by
    rw [hasBreak, List.any_flatMap, List.any_eq_false]
    intro c _
    rw [Bool.not_eq_true]
    exact hasBreak_escape c
  rw [double, ← List.singleton_append, hasBreak_append, hasBreak_append, hbody]
  decide

theorem hasBreak_single (hbreak : hasBreak cs = false) : hasBreak (single 0 cs) = false := by
  have hbody : hasBreak (singleBody 0 false cs) = false := by
    induction cs with
    | nil => rfl
    | cons c cs ih =>
      rw [hasBreak, List.any_cons, Bool.or_eq_false_iff] at hbreak
      rw [singleBody_cons hbreak.1, if_neg Bool.false_ne_true, List.nil_append, hasBreak_append, ih hbreak.2,
        Bool.or_false]
      split
      · decide
      · simp [hasBreak, hbreak.1]
  rw [single, ← List.singleton_append, hasBreak_append, hasBreak_append, hbody]
  decide

theorem isSimpleKey_iff : isSimpleKey k = true ↔ k.toList.any endsLine = false ∧ String.utf8Len k.toList ≤ 128 := by
  have hsize : k.utf8ByteSize = String.utf8Len k.toList := by
    rw [← String.utf8ByteSize_ofList, String.ofList_toList]
  rw [isSimpleKey, hsize, Bool.and_eq_true, Bool.not_eq_true', decide_eq_true_eq]

theorem hasBreak_of_isSimpleKey (h : isSimpleKey k = true) : hasBreak k.toList = false := by
  have hends := (isSimpleKey_iff.1 h).1
  rw [List.any_eq_false] at hends
  rw [hasBreak, List.any_eq_false]
  intro c hc hbreak
  exact hends c hc (by simp [endsLine, hbreak])

theorem hasBreak_simpleKey (h : isSimpleKey k = true) : hasBreak (simpleKey k) = false := by
  have hbreak := hasBreak_of_isSimpleKey h
  rw [simpleKey]
  split
  · exact hbreak
  · exact hasBreak_single hbreak
  · exact hasBreak_double _

theorem utf8Len_simpleKey_le (h : isSimpleKey k = true) : String.utf8Len (simpleKey k) ≤ 1024 := by
  have hsize := (isSimpleKey_iff.1 h).2
  rw [simpleKey]
  split
  · omega
  · have := utf8Len_single_le (hasBreak_of_isSimpleKey h)
    omega
  · have := utf8Len_double_le k.toList
    omega

theorem length_le_charsWithin {n : Nat} (hbreak : hasBreak cs = false) (h : String.utf8Len cs ≤ n) (rest : List Char) :
    cs.length ≤ Scan.charsWithin n (cs ++ rest) := by
  induction cs generalizing n with
  | nil => exact Nat.zero_le _
  | cons c cs ih =>
    rw [hasBreak, List.any_cons, Bool.or_eq_false_iff] at hbreak
    rw [String.utf8Len_cons] at h
    have hfits : (isBreak c || n < c.utf8Size) = false := by
      rw [Bool.or_eq_false_iff, decide_eq_false_iff_not]
      exact ⟨hbreak.1, by omega⟩
    have := ih hbreak.2 (by omega : String.utf8Len cs ≤ n - c.utf8Size)
    rw [List.cons_append, Scan.charsWithin, if_neg (by rw [hfits]; decide), List.length_cons]
    omega

/-- **A simple key stays in reach**, however much of it is escaped. -/
theorem reach_simpleKey (h : isSimpleKey k = true) (rest : List Char) :
    (simpleKey k).length ≤ Scan.charsWithin Scan.keyOctets (simpleKey k ++ rest) :=
  length_le_charsWithin (hasBreak_simpleKey h) (utf8Len_simpleKey_le h) rest

/-! ## Scanning -/

namespace Scan

variable {s : Scan} {blocks : List Nat} {out : List Token} {line column n : Nat} {keyAllowed : Bool}

/-- the blocks around a token that may open one in its column -/
def opened (column : Nat) (blocks : List Nat) : List Nat :=
  if column < blocks.headD 0 then blocks else (column + 1) :: blocks

/-- the tokens before a token that may open a block in its column -/
def openedOut (column : Nat) (start : Token) (blocks : List Nat) (out : List Token) : List Token :=
  if column < blocks.headD 0 then out else start :: out

theorem token_simpleKey (h : isSimpleKey k = true) (htail : startsBlank tail = true)
    (hblocks : blocks.headD 0 ≤ column + 1) :
    ∃ c cs, simpleKey k ++ ':' :: tail = c :: cs ∧ Solid c ∧ tail.length < cs.length ∧
      (point keyAllowed ⟨c :: cs, line, column⟩ blocks out).token c cs =
        some (pointWith (placesAt keyAllowed ⟨c :: cs, line, column⟩ blocks out) false
          ⟨':' :: tail, line, column + (simpleKey k).length⟩ blocks (.scalar k (style k) :: out)) := by
  have hsuits := suits_style k
  rw [simpleKey]
  generalize style k = way at hsuits
  cases hsuits with
  | plain hplain hmeaning =>
    cases hk : k.toList with
    | nil =>
      rw [hk] at hplain
      cases hplain
    | cons c cs =>
      rw [hk] at hplain
      have hread := @plainToken_colon tail line column blocks out keyAllowed k (hk ▸ hplain) hblocks htail
      rw [hk] at hread
      exact ⟨c, cs ++ ':' :: tail, rfl, solid_of_allowsPlain hplain,
        by simp; omega, (token_plain hplain (.inl rfl)).trans hread⟩
  | single hsingle hbreak =>
    obtain ⟨line', column', hread, -, hplain⟩ := @token_single (':' :: tail) line column blocks out keyAllowed 0 k
      (.single hsingle hbreak) (by simp) (.inr (hasBreak_of_isSimpleKey h))
    obtain ⟨rfl, rfl⟩ := hplain (hasBreak_of_isSimpleKey h)
    exact ⟨'\'', _, rfl, by decide, by simp; omega, hread⟩
  | double => exact ⟨'"', _, rfl, by decide, by simp; omega, token_double keyAllowed k⟩
  | literal hblock hbreak =>
    -- such a text has a break
    exact absurd (List.any_eq_false.1 (hasBreak_of_isSimpleKey h) _ hbreak) (by decide)

/-- the place before a scalar is where its key starts -/
theorem valueToken_place {cursor : Cursor} {scalar : Token} (hcolumn : cursor.column = n) :
    (pointWith [placeAt cursor blocks out] false ⟨':' :: tail, line, column⟩ blocks (scalar :: out)).valueToken =
      some (point false ⟨tail, line, column + 1⟩ (opened n blocks)
        (.value :: scalar :: .key :: openedOut n .blockMappingStart blocks out)) := by
  subst hcolumn
  have hback : out.length + 1 - out.length = 1 := by omega
  have hmore : out.length + 1 + 1 - out.length = 2 := by omega
  simp only [valueToken, pointWith, point, splitKeys, placeAt, if_true, insertToken, List.length_cons, hback,
    openBlock, inFlow, Nat.lt_irrefl, decide_false, Bool.false_or, indent, decide_eq_true_eq, opened, openedOut, hmore]
  split <;> rfl

/-- **A simple key is scanned as a key**, and opens a block if it stands inside the last one. -/
theorem reaches_key (h : isSimpleKey k = true) (htail : startsBlank tail = true) (hblocks : blocks.headD 0 ≤ n + 1)
    (hadvance : s.advance = some (point true ⟨simpleKey k ++ ':' :: tail, line, n⟩ blocks out)) :
    Reaches s (point false ⟨tail, line, n + (simpleKey k).length + 1⟩ (opened n blocks)
      (.value :: .scalar k (style k) :: .key :: openedOut n .blockMappingStart blocks out)) := by
  obtain ⟨c, cs, hkey, hsolid, hlength, htoken⟩ := @token_simpleKey tail k blocks out line n true h htail hblocks
  rw [hkey] at hadvance
  have hreach : ¬ n + Scan.charsWithin keyOctets (c :: cs) < n + (simpleKey k).length := by
    have := reach_simpleKey h (':' :: tail)
    rw [hkey] at this
    omega
  -- at the colon the place before the key is still there
  have hcolon : (pointWith (placesAt true ⟨c :: cs, line, n⟩ blocks out) false
      ⟨':' :: tail, line, n + (simpleKey k).length⟩ blocks (.scalar k (style k) :: out)).advance =
      some (pointWith [placeAt ⟨c :: cs, line, n⟩ blocks out] false ⟨':' :: tail, line, n + (simpleKey k).length⟩ blocks
        (.scalar k (style k) :: out)) := by
    have hkept : dropStale line (n + (simpleKey k).length) [placeAt ⟨c :: cs, line, n⟩ blocks out] =
        some [placeAt ⟨c :: cs, line, n⟩ blocks out] := by
      rw [dropStale, if_neg (by simp [placeAt, hreach])]
      rfl
    have hskip := @skipBlank_solid ':' tail line (n + (simpleKey k).length) false false (by decide)
    simp only [advance, placesAt, if_true, pointWith, point, inFlow, Nat.lt_irrefl, decide_false, hskip, hkept,
      Option.map_some]
    refine congrArg some (closeTo_of_le ?_)
    exact hblocks.trans (by omega)
  refine (reaches_of_token hadvance rfl htoken hlength).trans (reaches_of_token hcolon rfl ?_ le_rfl)
  have htoken :
      (pointWith [placeAt ⟨c :: cs, line, n⟩ blocks out] false ⟨':' :: tail, line, n + (simpleKey k).length⟩ blocks
        (.scalar k (style k) :: out)).token ':' tail =
      (pointWith [placeAt ⟨c :: cs, line, n⟩ blocks out] false ⟨':' :: tail, line, n + (simpleKey k).length⟩ blocks
        (.scalar k (style k) :: out)).valueToken := by
    simp [token, startsDocumentMark, htail]
  exact htoken.trans (valueToken_place rfl)

end Scan

end Fleet.Yaml
