/-
Scalars read back: quoted and plain ones.

What the writer makes of a text is followed by something that ends the scalar; the reader returns the text and stands
there. A reader keeps what it has passed since the last text in a gap, and folds it when text goes on.
- `doubleFrom_double`: escapes are undone one by one.
- `singleReads_body`, `singleFrom_single`: breaks are kept, because none of them is one that would be folded.
- `plainFrom_colon`, `plainFrom_line`: a plain text is followed by a colon, or by a break and what stands farther left.
-/
import Mathlib.Tactic.Ring
import Fleet.Proofs.Yaml.Style

namespace Fleet.Yaml

open Writer

variable {c : Char} {cs text rest : List Char} {gap : Gap} {line column : Nat} {s : String}

/-! ## Escapes -/

theorem escaped?_of_shortEscape? {e : Char} (h : shortEscape? c = some e) :
    escaped? e = some c ∧ isBreak e = false := by
  unfold shortEscape? at h
  split at h <;> cases h <;> decide

theorem digitValue?_upperHexDigit {d : Nat} (h : d < 16) : Text.digitValue? 16 (Text.upperHexDigit d) = some d := by
  have hall : ∀ d < 16, Text.digitValue? 16 (Text.upperHexDigit d) = some d := by decide
  exact hall d h

theorem charOf?_toNat (c : Char) : charOf? c.toNat = some c := by
  have hvalid : c.toNat.isValidChar := c.valid
  rw [charOf?, dif_pos hvalid]
  rfl

theorem length_hexDigits (n width : Nat) : (hexDigits n width).length = width := by
  induction width generalizing n with
  | zero => rfl
  | succ width ih => rw [hexDigits, List.length_append, ih, List.length_singleton]

/-- digits before the last one are put onto the value -/
theorem doubleFrom_digits {left width : Nat} (n value : Nat) (d : Char) (h : width < left) :
    doubleFrom (.code left value) text {} line column (hexDigits n width ++ d :: rest) =
      doubleFrom (.code (left - width) (value * 16 ^ width + n % 16 ^ width)) text {} line (column + width)
      (d :: rest) := by
  induction width generalizing n d rest with
  | zero => simp [hexDigits, Nat.mod_one]
  | succ width ih =>
    have hdigit := digitValue?_upperHexDigit (Nat.mod_lt n (by decide : 0 < 16))
    have hvalue : (value * 16 ^ width + n / 16 % 16 ^ width) * 16 + n % 16 =
        value * 16 ^ (width + 1) + n % 16 ^ (width + 1) := by
      rw [Nat.pow_succ', Nat.mod_mul]
      ring
    rw [hexDigits, List.append_assoc, List.singleton_append, ih (n / 16) _ (by omega), doubleFrom, hdigit]
    simp only
    rw [if_neg (by omega), hvalue, Nat.sub_sub, Nat.add_assoc]

/-- the digits of a character's number -/
theorem doubleFrom_code {width : Nat} (h : c.toNat < 16 ^ (width + 1)) :
    doubleFrom (.code (width + 1) 0) text {} line column (hexDigits c.toNat (width + 1) ++ rest) =
      doubleFrom .text (c :: text) {} line (column + (width + 1)) rest := by
  have hdigit := digitValue?_upperHexDigit (Nat.mod_lt c.toNat (by decide : 0 < 16))
  have hvalue : (0 * 16 ^ width + c.toNat / 16 % 16 ^ width) * 16 + c.toNat % 16 = c.toNat := by
    have hmod := Nat.mod_eq_of_lt h
    rw [Nat.pow_succ', Nat.mod_mul] at hmod
    omega
  rw [hexDigits, List.append_assoc, List.singleton_append, doubleFrom_digits _ _ _ (by omega), doubleFrom, hdigit]
  simp only
  rw [if_pos (by omega), hvalue, charOf?_toNat]
  simp only [Nat.add_assoc]

/-- between two stretches of text on one line, blanks stay as they are -/
theorem Gap.folded_of_unbroken (h : gap.broken = false) : gap.folded = gap.spaces := by
  rw [folded, if_neg (by simp [h])]

theorem Gap.pushBlank_of_unbroken (h : gap.broken = false) (c : Char) :
    (gap.pushBlank c).broken = false ∧ (gap.pushBlank c).spaces = c :: gap.spaces := by
  rw [pushBlank, if_neg (by simp [h])]
  exact ⟨h, rfl⟩

theorem Gap.pushBlank_of_broken (h : gap.broken = true) (c : Char) : gap.pushBlank c = gap := by
  rw [pushBlank, if_pos h]

theorem doubleFrom_blank {phase : QuotePhase} (hphase : phase = .text ∨ phase = .gap) :
    doubleFrom phase text gap line column (' ' :: rest) =
    doubleFrom .gap text (gap.pushBlank ' ') line (column + 1) rest := by
  rcases hphase with rfl | rfl <;> rfl

theorem doubleFrom_inText {phase : QuotePhase} (hphase : phase = .text ∨ phase = .gap) (hcolumn : column ≠ 0)
    (hblank : isGapChar c = false) (hbreak : isBreak c = false) : doubleFrom phase text gap line column (c :: rest) =
      if c = '"' then some ⟨String.ofList (gap.folded ++ text).reverse, false, ⟨rest, line, column + 1⟩⟩
      else if c = '\\' then doubleFrom .escape (gap.folded ++ text) {} line (column + 1) rest
      else doubleFrom .text (c :: (gap.folded ++ text)) {} line (column + 1) rest := by
  rcases hphase with rfl | rfl <;> rw [doubleFrom] <;> simp [hblank, hbreak, hcolumn]

/-- a character that cannot stand for itself in double quotes is read from its escape -/
theorem doubleFrom_escaped {phase : QuotePhase} (hphase : phase = .text ∨ phase = .gap) (hcolumn : column ≠ 0)
    (hescaped : ¬ (isPrintable c && !isLineBreak c && c ≠ '"' && c ≠ '\\')) :
    doubleFrom phase text gap line column (escape c ++ rest) =
      doubleFrom .text (c :: (gap.folded ++ text)) {} line (column + (escape c).length) rest := by
  have hstart : ∀ rest, doubleFrom phase text gap line column ('\\' :: rest) =
      doubleFrom .escape (gap.folded ++ text) {} line (column + 1) rest := by
    intro rest
    rw [doubleFrom_inText hphase hcolumn (by decide) (by decide), if_neg (by decide), if_pos rfl]
  rw [escape, if_neg hescaped]
  split
  · rename_i e he
    obtain ⟨hread, hbreak⟩ := escaped?_of_shortEscape? he
    rw [List.cons_append, hstart, List.cons_append, doubleFrom, hbreak, hread]
    rfl
  · have hcode : ∀ letter width, isBreak letter = false → escaped? letter = none →
        codeLength? letter = some (width + 1) → c.toNat < 16 ^ (width + 1) → doubleFrom phase text gap line column
          (('\\' :: letter :: hexDigits c.toNat (width + 1)) ++ rest) =
        doubleFrom .text (c :: (gap.folded ++ text)) {} line
          (column + ('\\' :: letter :: hexDigits c.toNat (width + 1)).length) rest := by
      intro letter width hbreak hnone hlength hlt
      rw [List.cons_append, hstart, List.cons_append, doubleFrom, hbreak, hnone, hlength]
      simp only [Bool.false_eq_true, if_false, doubleFrom_code hlt, List.length_cons, length_hexDigits]
      congr 1
      omega
    have hvalid : c.toNat < 0xD800 ∨ 0xDFFF < c.toNat ∧ c.toNat < 0x110000 := c.valid
    simp only
    split
    · exact hcode 'x' 1 rfl rfl rfl (by omega)
    · split
      · exact hcode 'u' 3 rfl rfl rfl (by omega)
      · exact hcode 'U' 7 rfl rfl rfl (by omega)

theorem isGapChar_of_isPrintable (h : isPrintable c = true) (hspace : c ≠ ' ') : isGapChar c = false := by
  simp [isGapChar, hspace, (ne_of_isPrintable h).1]

theorem doubleFrom_body {phase : QuotePhase} (hphase : phase = .text ∨ phase = .gap) (hgap : gap.broken = false)
    (hcolumn : column ≠ 0) (cs : List Char) :
    doubleFrom phase text gap line column (cs.flatMap escape ++ '"' :: rest) =
      some ⟨String.ofList ((gap.spaces ++ text).reverse ++ cs), false,
        ⟨rest, line, column + (cs.flatMap escape).length + 1⟩⟩ := by
  induction cs generalizing phase text gap column with
  | nil =>
    rw [List.flatMap_nil, List.nil_append, doubleFrom_inText hphase hcolumn (by decide) (by decide), if_pos rfl,
      Gap.folded_of_unbroken hgap, List.append_nil]
    rfl
  | cons c cs ih =>
    rw [List.flatMap_cons, List.append_assoc, List.length_append]
    by_cases hbare : isPrintable c && !isLineBreak c && c ≠ '"' && c ≠ '\\'
    · rw [escape, if_pos hbare, List.singleton_append, List.length_singleton]
      simp only [Bool.and_eq_true, Bool.not_eq_true', decide_eq_true_eq] at hbare
      obtain ⟨⟨⟨hprintable, hbreak⟩, hquote⟩, hbackslash⟩ := hbare
      by_cases hspace : c = ' '
      · subst hspace
        obtain ⟨hpushed, hspaces⟩ := Gap.pushBlank_of_unbroken hgap ' '
        rw [doubleFrom_blank hphase, ih (.inr rfl) hpushed (Nat.succ_ne_zero _), hspaces]
        simp [Nat.add_assoc]
      · rw [doubleFrom_inText hphase hcolumn (isGapChar_of_isPrintable hprintable hspace) hbreak, if_neg hquote,
          if_neg hbackslash, ih (.inl rfl) rfl (Nat.succ_ne_zero _), Gap.folded_of_unbroken hgap]
        simp [Nat.add_assoc]
    · rw [doubleFrom_escaped hphase hcolumn hbare, ih (.inl rfl) rfl (by omega), Gap.folded_of_unbroken hgap]
      simp [Nat.add_assoc]

/-- **Double quotes.** What is written between them is read as the text. -/
theorem doubleFrom_double (cs rest : List Char) (hcolumn : column ≠ 0) :
    doubleFrom .text [] {} line column (cs.flatMap escape ++ '"' :: rest) =
      some ⟨String.ofList cs, false, ⟨rest, line, column + (cs.flatMap escape).length + 1⟩⟩ :=
  doubleFrom_body (.inl rfl) rfl hcolumn cs

/-! ## Single quotes -/

/-- blanks behind a break do not count -/
theorem singleFrom_pad (hgap : gap.broken = true) (n : Nat) :
    singleFrom text gap line column (pad n ++ rest) = singleFrom text gap line (column + n) rest := by
  induction n generalizing column with
  | zero => rfl
  | succ n ih =>
    have hstep : singleFrom text gap line column (' ' :: (pad n ++ rest)) =
        singleFrom text (gap.pushBlank ' ') line (column + 1) (pad n ++ rest) := by
      rw [singleFrom]
      · rfl
      · simp
    rw [pad, List.replicate_succ, List.cons_append]
    refine hstep.trans ?_
    rw [Gap.pushBlank_of_broken hgap, ih, Nat.add_assoc, Nat.add_comm 1 n]

theorem singleFrom_end (hcolumn : column ≠ 0) (hrest : rest.head? ≠ some '\'') :
    singleFrom text gap line column ('\'' :: rest) =
      some ⟨String.ofList (gap.folded ++ text).reverse, false, ⟨rest, line, column + 1⟩⟩ := by
  rw [singleFrom]
  · simp [isGapChar, isBreak, hcolumn]
  · rintro rest' - rfl
    exact hrest rfl

theorem singleFrom_inText (hquote : c ≠ '\'') (hcolumn : column ≠ 0) (hblank : isGapChar c = false)
    (hbreak : isBreak c = false) :
    singleFrom text gap line column (c :: rest) = singleFrom (c :: (gap.folded ++ text)) {} line (column + 1) rest := by
  rw [singleFrom]
  · simp [hblank, hbreak, hcolumn, hquote]
  · rintro rest' rfl
    exact absurd rfl hquote

theorem singleFrom_blank : singleFrom text gap line column (' ' :: rest) =
    singleFrom text (gap.pushBlank ' ') line (column + 1) rest := by
  rw [singleFrom]
  · rfl
  · simp

theorem singleFrom_break (hbreak : isBreak c = true) : singleFrom text gap line column (c :: rest) =
    singleFrom text (gap.pushBreak c) (line + 1) 0 rest := by
  rw [singleFrom]
  · have hblank : isGapChar c = false := by
      rw [← Bool.not_eq_true]
      intro hblank
      simp only [isGapChar, Bool.or_eq_true, decide_eq_true_eq] at hblank
      rcases hblank with rfl | rfl <;> revert hbreak <;> decide
    simp [hblank, hbreak]
  · rintro rest' rfl
    cases hbreak

/-- what has been passed since the last text can stand before this one -/
structure Gap.Precedes (g : Gap) (cs : List Char) : Prop where
  /-- it has a break that is kept, and what comes next is no blank, which would be lost -/
  broken : g.broken = true → (∃ b, g.firstBreak = some b ∧ b ≠ '\n') ∧ cs.head? ≠ some ' '
  /-- blanks before a break would be lost -/
  blanks : g.broken = false → g.spaces ≠ [] → startsWith isLineBreak cs = false

theorem Gap.folded_of_kept {b : Char} (hbroken : gap.broken = true) (hb : gap.firstBreak = some b) (hne : b ≠ '\n') :
    gap.folded = gap.laterBreaks ++ [b] := by
  rw [folded, if_pos hbroken]
  split
  · rename_i heq
    exact absurd (Option.some.inj (hb.symm.trans heq)) hne
  · rename_i heq
    rw [Option.some.inj (hb.symm.trans heq)]
  · rename_i heq
    cases hb.symm.trans heq

/-- a break that is kept comes behind what is passed already -/
theorem Gap.Precedes.pushBreak (h : gap.Precedes (c :: cs)) (hbreak : isBreak c = true) (hc : c ≠ '\n')
    (hcs : cs.head? ≠ some ' ') : (gap.pushBreak c).folded = c :: gap.folded ∧ (gap.pushBreak c).broken = true ∧
      (gap.pushBreak c).Precedes cs := by
  cases hbroken : gap.broken with
  | true =>
    obtain ⟨⟨b, hb, hne⟩, -⟩ := h.broken hbroken
    have hpush : gap.pushBreak c = { gap with laterBreaks := c :: gap.laterBreaks } := by
      rw [Gap.pushBreak, if_pos hbroken]
    rw [hpush, folded_of_kept hbroken hb hne]
    exact ⟨folded_of_kept hbroken hb hne, hbroken,
      ⟨fun _ => ⟨⟨b, hb, hne⟩, hcs⟩, fun h => by cases hbroken.symm.trans h⟩⟩
  | false =>
    have hspaces : gap.spaces = [] := by
      by_contra hne
      have hstarts := h.blanks hbroken hne
      rw [startsWith, List.head?_cons, Option.map_some, Option.getD_some, isLineBreak, hbreak] at hstarts
      cases hstarts
    have hpush : gap.pushBreak c = { spaces := [], broken := true, firstBreak := some c, laterBreaks := [] } := by
      rw [Gap.pushBreak, if_neg (by simp [hbroken])]
    rw [hpush, folded_of_unbroken hbroken, hspaces]
    exact ⟨folded_of_kept rfl rfl hc, rfl, ⟨fun _ => ⟨⟨c, rfl, hc⟩, hcs⟩, fun h => by cases h⟩⟩

/-- blanks on a line are kept before what is no break -/
theorem Gap.Precedes.pushBlank (h : gap.broken = false) (hcs : startsWith isLineBreak cs = false) :
    (gap.pushBlank ' ').Precedes cs := by
  obtain ⟨hpushed, -⟩ := Gap.pushBlank_of_unbroken h ' '
  exact ⟨fun hbroken => (Bool.false_ne_true (hpushed.symm.trans hbroken)).elim, fun _ _ => hcs⟩

theorem Gap.Precedes.empty (cs : List Char) : ({} : Gap).Precedes cs :=
  ⟨fun h => (Bool.false_ne_true h).elim, fun _ h => absurd rfl h⟩

theorem hasPair_cons {p q : Char → Bool} (h : hasPair p q (c :: cs) = false) : hasPair p q cs = false ∧
    (p c = true → startsWith q cs = false) := by
  cases cs with
  | nil => exact ⟨rfl, fun _ => rfl⟩
  | cons d cs =>
    rw [hasPair, Bool.or_eq_false_iff] at h
    refine ⟨h.2, fun hp => ?_⟩
    have hpair := h.1
    rw [hp, Bool.true_and] at hpair
    exact hpair

/-- a character that is no blank is read, and a quote that is written twice as one -/
theorem singleFrom_character (hprintable : isPrintable c = true) (hspace : c ≠ ' ') (hbreak : isBreak c = false)
    (hcolumn : column ≠ 0) : singleFrom text gap line column ((if c = '\'' then ['\'', '\''] else [c]) ++ rest) =
      singleFrom (c :: (gap.folded ++ text)) {} line
      (column + (if c = '\'' then ['\'', '\''] else [c]).length) rest := by
  split
  · rename_i hquote
    rw [hquote]
    exact singleFrom.eq_2 ..
  · rename_i hquote
    exact singleFrom_inText hquote hcolumn (isGapChar_of_isPrintable hprintable hspace) hbreak

/-- What is written of a text is read back behind what has been read and passed already. Without breaks it stays on its
line. -/
def SingleReads (indent : Nat) (rest text : List Char) (gap : Gap) (line column : Nat) (cs : List Char) : Prop :=
  ∃ line' column',
    singleFrom text gap line column (singleBody indent gap.broken cs ++ '\'' :: rest) =
      some ⟨String.ofList ((gap.folded ++ text).reverse ++ cs), false, ⟨rest, line', column'⟩⟩ ∧ line ≤ line' ∧
    (gap.broken = false → hasBreak cs = false →
      line' = line ∧ column' = column + (singleBody indent false cs).length + 1)

section

variable {indent : Nat}

theorem singleReads_nil (hrest : rest.head? ≠ some '\'') (hindent : gap.broken = true → indent ≠ 0)
    (hcolumn : gap.broken = false → column ≠ 0) : SingleReads indent rest text gap line column [] := by
  rw [SingleReads, List.append_nil]
  cases hbroken : gap.broken with
  | true =>
    have hne : column + indent ≠ 0 := by
      have := hindent hbroken
      omega
    rw [singleBody, if_pos rfl, singleFrom_pad hbroken, singleFrom_end hne hrest]
    exact ⟨_, _, rfl, le_rfl, fun h => by cases h⟩
  | false =>
    rw [singleBody, if_neg (by decide), List.nil_append, singleFrom_end (hcolumn hbroken) hrest]
    exact ⟨_, _, rfl, le_rfl, fun _ _ => ⟨rfl, rfl⟩⟩

/-- a break, and what comes on the next line -/
theorem SingleReads.behind_break (h : SingleReads indent rest text (gap.pushBreak c) (line + 1) 0 cs)
    (hbreak : isLineBreak c = true) (hfolded : (gap.pushBreak c).folded = c :: gap.folded)
    (hpushed : (gap.pushBreak c).broken = true) : SingleReads indent rest text gap line column (c :: cs) := by
  obtain ⟨line', column', hread, hline, -⟩ := h
  rw [hpushed, hfolded] at hread
  refine ⟨line', column', ?_, by omega, fun _ h => ?_⟩
  · rw [singleBody, if_pos hbreak, List.cons_append, singleFrom_break hbreak, hread]
    simp
  · rw [hasBreak, List.any_cons, hbreak] at h
    cases h

theorem singleBody_cons (hbreak : isLineBreak c = false) (afterBreak : Bool) : singleBody indent afterBreak (c :: cs) =
    (if afterBreak then pad indent else []) ++
    ((if c = '\'' then ['\'', '\''] else [c]) ++ singleBody indent false cs) := by
  rw [singleBody, if_neg (by simp [hbreak]), List.append_assoc]

theorem hasBreak_cons (hbreak : isLineBreak c = false) : hasBreak (c :: cs) = hasBreak cs := by
  rw [hasBreak, List.any_cons, hbreak, Bool.false_or]
  rfl

/-- a blank on a line, and what comes behind it -/
theorem SingleReads.behind_blank (h : SingleReads indent rest text (gap.pushBlank ' ') line (column + 1) cs)
    (hopen : gap.broken = false) : SingleReads indent rest text gap line column (' ' :: cs) := by
  obtain ⟨line', column', hread, hline, hplain⟩ := h
  obtain ⟨hpushed, hspaces⟩ := Gap.pushBlank_of_unbroken hopen ' '
  rw [hpushed, Gap.folded_of_unbroken hpushed, hspaces] at hread
  refine ⟨line', column', ?_, hline, fun _ h => ?_⟩
  · rw [hopen, singleBody_cons (by decide), if_neg (by decide), if_neg (by decide), List.nil_append,
      List.singleton_append, List.cons_append, singleFrom_blank, hread, Gap.folded_of_unbroken hopen]
    simp
  · obtain ⟨hsame, hwidth⟩ := hplain hpushed ((hasBreak_cons (by decide)).symm.trans h)
    refine ⟨hsame, hwidth.trans ?_⟩
    rw [singleBody_cons (by decide), if_neg (by decide), if_neg (by decide), List.nil_append, List.singleton_append,
      List.length_cons]
    omega

/-- a character that is no blank, where the line starts or goes on, and what comes behind it -/
theorem SingleReads.behind_character {start : Nat} (h : SingleReads indent rest (c :: (gap.folded ++ text)) {} line
      (start + (if c = '\'' then ['\'', '\''] else [c]).length) cs)
    (hprintable : isPrintable c = true) (hspace : c ≠ ' ') (hbreak : isLineBreak c = false) (hcolumn : start ≠ 0)
    (hstart : start = if gap.broken then column + indent else column) :
    SingleReads indent rest text gap line column (c :: cs) := by
  obtain ⟨line', column', hread, hline, hplain⟩ := h
  have hcharacter : singleFrom text gap line start
      ((if c = '\'' then ['\'', '\''] else [c]) ++ (singleBody indent false cs ++ '\'' :: rest)) =
      some ⟨String.ofList ((gap.folded ++ text).reverse ++ c :: cs), false, ⟨rest, line', column'⟩⟩ := by
    rw [singleFrom_character hprintable hspace hbreak hcolumn]
    refine hread.trans ?_
    rw [Gap.folded_of_unbroken rfl]
    simp
  refine ⟨line', column', ?_, hline, fun hopen h => ?_⟩
  · rw [singleBody_cons hbreak, List.append_assoc, List.append_assoc]
    cases hopen : gap.broken with
    | true =>
      rw [hopen, if_pos rfl] at hstart
      rw [if_pos rfl, singleFrom_pad hopen, ← hstart]
      exact hcharacter
    | false =>
      rw [hopen, if_neg (by decide)] at hstart
      rw [if_neg (by decide), List.nil_append, ← hstart]
      exact hcharacter
  · rw [hopen, if_neg (by decide)] at hstart
    obtain ⟨hsame, hwidth⟩ := hplain rfl ((hasBreak_cons hbreak).symm.trans h)
    refine ⟨hsame, hwidth.trans ?_⟩
    rw [singleBody_cons hbreak, if_neg Bool.false_ne_true, List.nil_append, List.length_append, hstart]
    omega

theorem singleReads_body (hprintable : allPrintable cs = true) (hnewline : '\n' ∉ cs)
    (hbefore : hasPair isSpace isLineBreak cs = false) (hbehind : hasPair isLineBreak isSpace cs = false)
    (hrest : rest.head? ≠ some '\'') (hindent : indent ≠ 0 ∨ gap.broken = false ∧ hasBreak cs = false)
    (hcolumn : gap.broken = false → column ≠ 0) (hgap : gap.Precedes cs) :
    SingleReads indent rest text gap line column cs := by
  have hmargin : gap.broken = true → indent ≠ 0 := fun hbroken =>
    hindent.resolve_right fun h => by cases hbroken.symm.trans h.1
  induction cs generalizing text gap line column with
  | nil => exact singleReads_nil hrest hmargin hcolumn
  | cons c cs ih =>
    rw [allPrintable, List.all_cons, Bool.and_eq_true] at hprintable
    rw [List.mem_cons, not_or] at hnewline
    obtain ⟨hbeforeRest, hblank⟩ := hasPair_cons hbefore
    obtain ⟨hbehindRest, hbroken⟩ := hasPair_cons hbehind
    have hrestReads {text : List Char} {gap : Gap} {line column : Nat} :=
      @ih text gap line column hprintable.2 hnewline.2 hbeforeRest hbehindRest
    cases hbreak : isLineBreak c with
    | true =>
      have hkept : indent ≠ 0 := hindent.resolve_right fun h => by
        have hnone := h.2
        rw [hasBreak, List.any_cons, hbreak] at hnone
        cases hnone
      have hnext : cs.head? ≠ some ' ' := by
        have hstarts := hbroken hbreak
        intro hhead
        rw [startsWith, hhead] at hstarts
        cases hstarts
      obtain ⟨hfolded, hpushed, hprecedes⟩ := hgap.pushBreak hbreak (Ne.symm hnewline.1) hnext
      exact (hrestReads (.inl hkept) (fun h => by cases hpushed.symm.trans h) hprecedes
        fun _ => hkept).behind_break hbreak hfolded hpushed
    | false =>
      have hrestIndent : indent ≠ 0 ∨ hasBreak cs = false :=
        hindent.imp_right fun h => (hasBreak_cons hbreak).symm.trans h.2
      by_cases hspace : c = ' '
      · subst hspace
        -- a blank at the start of a line would be lost
        have hopen : gap.broken = false := by
          rw [← Bool.not_eq_true]
          exact fun hbroken => (hgap.broken hbroken).2 rfl
        obtain ⟨hpushed, -⟩ := Gap.pushBlank_of_unbroken hopen ' '
        exact (hrestReads (hrestIndent.imp_right fun h => ⟨hpushed, h⟩) (fun _ => Nat.succ_ne_zero _)
          (Gap.Precedes.pushBlank hopen (hblank rfl)) fun h => by cases hpushed.symm.trans h).behind_blank hopen
      · have hstart : (if gap.broken then column + indent else column) ≠ 0 := by
          split
          · rename_i hbroken
            have := hmargin hbroken
            omega
          · rename_i hopen
            exact hcolumn (by simpa using hopen)
        exact (hrestReads (hrestIndent.imp_right fun h => ⟨rfl, h⟩) (fun _ => by omega) (Gap.Precedes.empty cs)
          fun h => by cases h).behind_character hprintable.1 hspace hbreak hstart rfl

end

/-- **Single quotes.** What is written between them is read as the text; without breaks it stays on its line. -/
theorem singleFrom_single {indent : Nat} (hsuits : Suits s .single) (hrest : rest.head? ≠ some '\'')
    (hindent : indent ≠ 0 ∨ hasBreak s.toList = false) (hcolumn : column ≠ 0) : ∃ line' column',
      singleFrom [] {} line column (singleBody indent false s.toList ++ '\'' :: rest) =
        some ⟨s, false, ⟨rest, line', column'⟩⟩ ∧ line ≤ line' ∧
      (hasBreak s.toList = false → line' = line ∧
        column' = column + (singleBody indent false s.toList).length + 1) := by
  obtain _ | ⟨hsingle, hnewline⟩ := hsuits
  simp only [allowsSingle, Bool.and_eq_true, Bool.not_eq_true'] at hsingle
  obtain ⟨⟨hprintable, hbefore⟩, hbehind⟩ := hsingle
  obtain ⟨line', column', hread, hline, hplain⟩ := @singleReads_body _ [] rest {} line column indent hprintable hnewline
    hbefore hbehind hrest (hindent.imp_right fun h => ⟨rfl, h⟩) (fun _ => hcolumn) (Gap.Precedes.empty _)
  refine ⟨line', column', hread.trans ?_, hline, hplain rfl⟩
  rw [Gap.folded_of_unbroken rfl]
  simp

/-! ## Plain scalars -/

variable {inGap : Bool} {indent : Nat} {tail : List Char}

theorem plainFrom_blank : plainFrom false indent inGap text gap line column (' ' :: rest) =
    plainFrom false indent true text (gap.pushBlank ' ') line (column + 1) rest := by
  rw [plainFrom]
  simp [isGapChar]

theorem plainFrom_inText (hblank : isGapChar c = false) (hbreak : isBreak c = false)
    (hstart : inGap = true → indent ≤ column ∧ column ≠ 0 ∧ c ≠ '#') (hends : endsPlain false (c :: rest) = false) :
    plainFrom false indent inGap text gap line column (c :: rest) =
      plainFrom false indent false (c :: (gap.folded ++ text)) {} line (column + 1) rest := by
  have hgo : (inGap && ((!false && column < indent) || (column = 0 && startsDocumentMark (c :: rest)) || c = '#')) =
      false := by
    cases inGap with
    | false => rfl
    | true =>
      obtain ⟨hindent, hcolumn, hhash⟩ := hstart rfl
      simp [hindent, hcolumn, hhash]
  rw [plainFrom, if_neg (by simp [hblank]), if_neg (by simp [hbreak]), if_neg (by rw [hgo]; decide), if_neg (by simp),
    if_neg (by rw [hends]; decide)]

/-- what is not seen as blank by the writer is not blank for the reader -/
theorem startsBlank_of_blankNext (h : blankNext cs = false) : startsBlank cs = false := by
  cases cs with
  | nil => cases h
  | cons c cs =>
    simp only [blankNext, isBlankOrEnd, Bool.or_eq_false_iff] at h
    exact h.1.1.1

theorem hasInnerIndicator_cons (h : hasInnerIndicator (c :: cs) = false) : hasInnerIndicator cs = false ∧
    (c = ':' → blankNext cs = false) ∧ (c = ' ' → cs.head? ≠ some '#') := by
  simp only [hasInnerIndicator, Bool.or_eq_false_iff, Bool.and_eq_false_iff, decide_eq_false_iff_not] at h
  obtain ⟨⟨hcolon, hhash⟩, hrest⟩ := h
  refine ⟨hrest, fun hc => hcolon.resolve_left fun h => h hc, fun hc => ?_⟩
  subst hc
  exact hhash.resolve_left (by decide)

theorem plainFrom_body (hne : cs ≠ []) (hprintable : allPrintable cs = true) (hbreak : hasBreak cs = false)
    (hinner : hasInnerIndicator cs = false) (hend : endsWith isSpace cs = false) (hgap : gap.broken = false)
    (hcolumn : indent ≤ column + 1) (hstart : inGap = true → indent ≤ column ∧ column ≠ 0 ∧ cs.head? ≠ some '#') :
    plainFrom false indent inGap text gap line column (cs ++ tail) =
      plainFrom false indent false (cs.reverse ++ (gap.spaces ++ text)) {} line (column + cs.length) tail := by
  induction cs generalizing inGap text gap column with
  | nil => exact absurd rfl hne
  | cons c cs ih =>
    rw [allPrintable, List.all_cons, Bool.and_eq_true] at hprintable
    rw [hasBreak, List.any_cons, Bool.or_eq_false_iff] at hbreak
    obtain ⟨hinnerRest, hcolon, hhash⟩ := hasInnerIndicator_cons hinner
    have hendRest : cs ≠ [] → endsWith isSpace cs = false := fun hne => by
      rwa [endsWith, List.getLast?_cons_of_ne_nil hne] at hend
    by_cases hspace : c = ' '
    · subst hspace
      have hne : cs ≠ [] := by
        rintro rfl
        cases hend
      obtain ⟨hpushed, hspaces⟩ := Gap.pushBlank_of_unbroken hgap ' '
      rw [List.cons_append, plainFrom_blank, ih hne hprintable.2 hbreak.2 hinnerRest (hendRest hne) hpushed (by omega)
        (fun _ => ⟨by omega, Nat.succ_ne_zero _, hhash rfl⟩), hspaces]
      simp [Nat.add_assoc, Nat.add_comm 1]
    · have hends : endsPlain false (c :: (cs ++ tail)) = false := by
        rw [endsPlain, Bool.false_and, Bool.or_false, Bool.and_eq_false_iff, decide_eq_false_iff_not]
        by_cases hc : c = ':'
        · right
          have hnext := startsBlank_of_blankNext (hcolon hc)
          cases cs with
          | nil => cases hnext
          | cons d cs => exact hnext
        · exact .inl hc
      have hfirst : inGap = true → indent ≤ column ∧ column ≠ 0 ∧ c ≠ '#' := fun h => by
        obtain ⟨hindent, hcolumn, hhash⟩ := hstart h
        exact ⟨hindent, hcolumn, fun hc => hhash (congrArg some hc)⟩
      rw [List.cons_append, plainFrom_inText (isGapChar_of_isPrintable hprintable.1 hspace) hbreak.1 hfirst hends,
        Gap.folded_of_unbroken hgap]
      cases cs with
      | nil => rfl
      | cons d cs =>
        have hne : d :: cs ≠ [] := List.cons_ne_nil _ _
        rw [ih hne hprintable.2 hbreak.2 hinnerRest (hendRest hne) rfl (by omega) (fun h => by cases h)]
        simp [Nat.add_assoc, Nat.add_comm 1]

/-- a character that starts a token -/
def Solid (c : Char) : Prop := isGapChar c = false ∧ isBreak c = false ∧ c ≠ '#' ∧ c ≠ '\ufeff'

instance (c : Char) : Decidable (Solid c) := inferInstanceAs (Decidable (_ ∧ _))

theorem plainFrom_text (hplain : allowsPlain s.toList = true) (hcolumn : indent ≤ column + 1) :
    plainFrom false indent false [] {} line column (s.toList ++ tail) =
      plainFrom false indent false s.toList.reverse {} line (column + s.toList.length) tail := by
  simp only [allowsPlain, Bool.and_eq_true, Bool.not_eq_true'] at hplain
  obtain ⟨⟨⟨⟨⟨⟨hempty, hprintable⟩, hbreak⟩, -⟩, hend⟩, -⟩, hinner⟩ := hplain
  have hne : s.toList ≠ [] := fun h => by rw [h] at hempty; cases hempty
  rw [plainFrom_body hne hprintable hbreak hinner hend rfl hcolumn (fun h => by cases h)]
  simp

/-- **Plain texts before a colon.** -/
theorem plainFrom_colon (hplain : allowsPlain s.toList = true) (hcolumn : indent ≤ column + 1)
    (hrest : startsBlank rest = true) : plainFrom false indent false [] {} line column (s.toList ++ ':' :: rest) =
      some ⟨s, false, ⟨':' :: rest, line, column + s.toList.length⟩⟩ := by
  have hends : endsPlain false (':' :: rest) = true := by simp [endsPlain, hrest]
  rw [plainFrom_text hplain hcolumn, plainFrom, if_neg (by decide), if_neg (by decide), if_neg (by simp),
    if_neg (by simp), if_pos hends, List.reverse_reverse, String.ofList_toList]

/-- blanks behind a break do not count -/
theorem plainFrom_pad (hgap : gap.broken = true) (n : Nat) :
    plainFrom false indent true text gap line column (pad n ++ rest) =
      plainFrom false indent true text gap line (column + n) rest := by
  induction n generalizing column with
  | zero => rfl
  | succ n ih =>
    rw [pad, List.replicate_succ, List.cons_append, plainFrom_blank, Gap.pushBlank_of_broken hgap]
    refine ih.trans ?_
    rw [Nat.add_assoc, Nat.add_comm 1 n]

/-- **Plain texts at the end of a line**: the reader stands on what comes next. -/
theorem plainFrom_line {k : Nat} {after : List Char} (hplain : allowsPlain s.toList = true)
    (hcolumn : indent ≤ column + 1) (hk : k < indent) (hafter : ∀ c ∈ after.head?, Solid c) :
    plainFrom false indent false [] {} line column (s.toList ++ '\n' :: (pad k ++ after)) =
      some ⟨s, true, ⟨after, line + 1, k⟩⟩ := by
  rw [plainFrom_text hplain hcolumn, plainFrom, if_neg (by decide), if_pos (by decide), plainFrom_pad rfl, Nat.zero_add]
  cases after with
  | nil =>
    rw [plainFrom, List.reverse_reverse, String.ofList_toList]
    rfl
  | cons c after =>
    obtain ⟨hblank, hbreak, -⟩ := hafter c rfl
    rw [plainFrom, if_neg (by simp [hblank]), if_neg (by simp [hbreak]), if_pos (by simp [hk]), List.reverse_reverse,
      String.ofList_toList]
    rfl

end Fleet.Yaml
