/-
Block scalars read back.

A block stands behind a `|` and its hints, indented below what it belongs to. The lines are read as they stand, and the
hints say how many of the breaks at the end count: none, one or all of them.
- `blockScalar_literal`: what is written as a block is read as the text, whatever it starts or ends with.
-/
import Mathlib.Data.List.Basic
import Fleet.Proofs.Yaml.Scalar

namespace Fleet.Yaml

open Writer

variable {c : Char} {cs tail written : List Char} {s : BlockState} {chomp : Chomp} {inLine : Bool}
  {line column indent : Nat}

/-! ## Breaks at the end -/

/-- the breaks that have to count, of those that a text ends with -/
def Chomp.of (cs : List Char) : Chomp :=
  match cs.reverse with
  | [] => .strip
  | [c] => if isLineBreak c then .keep else .strip
  | c :: d :: _ => if isLineBreak c then (if isLineBreak d then .keep else .clip) else .strip

namespace BlockState

/-- what has been read, in reverse, and how the state keeps it: breaks apart from the text before them -/
structure Holds (s : BlockState) (inLine : Bool) (written : List Char) : Prop where
  written : s.withBreaks = written
  text : ∀ c ∈ s.text.head?, isBreak c = false
  breaks : ∀ c ∈ s.laterBreaks ++ s.lastBreak.toList, isBreak c = true
  inside : inLine = true → s.lastBreak = none ∧ s.laterBreaks = []
  between : inLine = false → s.text ≠ [] → s.lastBreak ≠ none

theorem Holds.text_eq (h : s.Holds inLine written) : s.text = written.dropWhile isBreak := by
  rw [← h.written, withBreaks, List.dropWhile_append_of_pos h.breaks]
  cases htext : s.text with
  | nil => rfl
  | cons c text =>
    have hc := h.text c (by rw [htext]; rfl)
    rw [List.dropWhile_cons_of_neg (by simp [hc])]

theorem Holds.finish_clip (h : s.Holds false (c :: written)) (hc : isBreak c = true) (hne : written ≠ [])
    (hhead : ∀ d ∈ written.head?, isBreak d = false) : s.finish .clip = String.ofList (c :: written).reverse := by
  obtain ⟨d, rest, rfl⟩ := List.exists_cons_of_ne_nil hne
  have htext : s.text = d :: rest := by
    rw [h.text_eq, List.dropWhile_cons_of_pos hc, List.dropWhile_cons_of_neg (by simp [hhead d rfl])]
  obtain ⟨b, hb⟩ := Option.ne_none_iff_exists'.1 (h.between rfl (by rw [htext]; exact List.cons_ne_nil _ _))
  have hwritten := h.written
  rw [withBreaks, hb, htext, Option.toList_some] at hwritten
  have hbreaks : s.laterBreaks ++ [b] = [c] := List.append_cancel_right (hwritten.trans (List.singleton_append ..).symm)
  have hlast : b = c := by simpa using congrArg List.getLast? hbreaks
  rw [finish, hb, htext, hlast]
  rfl

end BlockState

theorem blockLines_zero (front : List Char) (atStart : Bool) (c : Char) : blockLines 0 atStart (front ++ [c]) =
    front ++ [c] ++ if isLineBreak c then [] else ['\n'] := by
  induction front generalizing atStart with
  | nil =>
    rw [List.nil_append, blockLines]
    split
    · rfl
    · cases atStart <;> rfl
  | cons d front ih =>
    rw [List.cons_append, blockLines]
    split
    · rw [ih]
      rfl
    · rw [ih]
      cases atStart <;> rfl

/-- the hints make of the lines the text that was written -/
theorem BlockState.Holds.finish_eq (h : s.Holds false (blockLines 0 true cs).reverse) (hne : cs ≠ []) :
    s.finish (Chomp.of cs) = String.ofList cs := by
  obtain hnil | ⟨front, c, rfl⟩ := List.eq_nil_or_concat' cs
  · exact absurd hnil hne
  rw [blockLines_zero] at h
  cases hc : isLineBreak c with
  | false =>
    rw [hc, if_neg (by decide), List.reverse_append, List.reverse_append] at h
    have htext : s.text = (front ++ [c]).reverse := by
      rw [h.text_eq, List.reverse_append]
      exact (List.dropWhile_cons_of_pos rfl).trans (List.dropWhile_cons_of_neg (by simpa [isLineBreak] using hc))
    have hchomp : Chomp.of (front ++ [c]) = .strip := by
      cases hfront : front.reverse <;> simp [Chomp.of, hfront, hc]
    rw [hchomp, finish, htext, List.reverse_reverse]
  | true =>
    rw [hc, if_pos rfl, List.append_nil] at h
    obtain rfl | ⟨front, d, rfl⟩ := List.eq_nil_or_concat' front
    · -- a break alone
      have hchomp : Chomp.of ([] ++ [c]) = .keep := by simp [Chomp.of, hc]
      rw [hchomp, finish, h.written, List.reverse_reverse]
    cases hd : isLineBreak d with
    | true =>
      have hchomp : Chomp.of (front ++ [d] ++ [c]) = .keep := by simp [Chomp.of, hc, hd]
      rw [hchomp, finish, h.written, List.reverse_reverse]
    | false =>
      have hchomp : Chomp.of (front ++ [d] ++ [c]) = .clip := by simp [Chomp.of, hc, hd]
      rw [hchomp]
      rw [List.reverse_append, List.reverse_append, List.reverse_singleton, List.reverse_singleton,
        List.singleton_append, List.singleton_append] at h
      rw [h.finish_clip hc (List.cons_ne_nil _ _) fun e he => by cases he; exact hd]
      simp

/-! ## Hints -/

/-- whether the indentation of a block has to be given, since its text starts with a blank or a break -/
def needsIndent (cs : List Char) : Bool := startsWith (fun c => isSpace c || isLineBreak c) cs

/-- the hint for the breaks at the end -/
def Chomp.hint : Chomp → List Char
  | .strip => ['-']
  | .clip => []
  | .keep => ['+']

theorem blockHints_eq (cs : List Char) :
    blockHints cs = (if needsIndent cs then ['2'] else []) ++ (Chomp.of cs).hint := by
  rw [blockHints, needsIndent]
  congr 1
  unfold Chomp.of
  rcases cs.reverse with _ | ⟨c, _ | ⟨d, l⟩⟩
  · rfl
  · cases hc : isLineBreak c <;> simp [hc, Chomp.hint]
  · cases hc : isLineBreak c <;> cases hd : isLineBreak d <;> simp [hc, hd, Chomp.hint]

/-- the hints are read as they are meant -/
theorem blockHeader_blockHints (cs rest : List Char) : blockHeader (blockHints cs ++ '\n' :: rest) =
    some (⟨Chomp.of cs, if needsIndent cs then some 2 else none⟩, (blockHints cs).length) := by
  rw [blockHints_eq]
  cases needsIndent cs <;> cases Chomp.of cs <;> rfl

/-! ## Lines -/

theorem blockFrom_inLine (hbreak : isBreak c = false) : blockFrom true chomp true s line column (c :: tail) =
    blockFrom true chomp true { s with text := c :: s.text } line (column + 1) tail := by
  rw [blockFrom, if_pos rfl, if_neg (by simp [hbreak])]

theorem blockFrom_endLine (hbreak : isBreak c = true) : blockFrom true chomp true s line column (c :: tail) =
    blockFrom true chomp false { s with lastBreak := some c } (line + 1) 0 tail := by
  rw [blockFrom, if_pos rfl, if_pos hbreak]

theorem blockFrom_emptyLine (hbreak : isBreak c = true) : blockFrom true chomp false s line 0 (c :: tail) =
      blockFrom true chomp false { s with widest := max s.widest 0, laterBreaks := c :: s.laterBreaks }
      (line + 1) 0 tail := by
  have hspace : c ≠ ' ' := fun h => by rw [h] at hbreak; cases hbreak
  have htab : c ≠ '\t' := fun h => by rw [h] at hbreak; cases hbreak
  rw [blockFrom, if_neg (by decide)]
  simp [hspace, htab, hbreak]

/-- the indentation of a line is passed over -/
theorem blockFrom_pad {k : Nat} (h : ∀ indent, s.indent = some indent → column + k ≤ indent) :
    blockFrom true chomp false s line column (pad k ++ tail) = blockFrom true chomp false s line (column + k) tail := by
  induction k generalizing column with
  | zero => rfl
  | succ k ih =>
    have hwithin : s.indent.all (column < ·) = true := by
      cases hindent : s.indent with
      | none => rfl
      | some indent =>
        have := h indent hindent
        exact decide_eq_true (by omega)
    rw [pad, List.replicate_succ, List.cons_append, blockFrom, if_neg (by decide)]
    simp only [hwithin, decide_true, Bool.and_self, if_true]
    refine (ih fun indent hindent => ?_).trans ?_
    · have := h indent hindent
      omega
    · rw [Nat.add_assoc, Nat.add_comm 1 k]

/-- at its indentation, the text of a line starts -/
theorem blockFrom_startLine (hsettle : s.settle column = column) (hblank : s.indent = none → isGapChar c = false)
    (hindent : ∀ indent, s.indent = some indent → indent ≤ column) (hbreak : isBreak c = false) :
    blockFrom true chomp false s line column (c :: tail) =
      blockFrom true chomp true (({ s with indent := some column }).startLine true c) line (column + 1) tail := by
  have hspace : (s.indent.all (column < ·) && c = ' ') = false ∧ (s.indent.all (column < ·) && c = '\t') = false := by
    cases hs : s.indent with
    | none =>
      have h := hblank hs
      simp only [isGapChar, Bool.or_eq_false_iff, decide_eq_false_iff_not] at h
      simp [h.1, h.2]
    | some indent =>
      have h := hindent indent hs
      simp [h]
  rw [blockFrom, if_neg (by decide)]
  simp only [hspace.1, hspace.2, hbreak, hsettle, Bool.false_eq_true, if_false, if_true]

/-- a block ends before something that stands farther left -/
theorem blockFrom_end {k : Nat} {after : List Char} (hindent : s.indent = some indent) (hk : k < indent)
    (hafter : ∀ c ∈ after.head?, Solid c) : blockFrom true chomp false s line 0 (pad k ++ after) =
      some ⟨s.finish chomp, true, ⟨after, line, k⟩⟩ := by
  rw [blockFrom_pad fun i hi => by cases hindent.symm.trans hi; omega, Nat.zero_add]
  cases after with
  | nil => rw [blockFrom]
  | cons c after =>
    obtain ⟨hblank, hbreak, -⟩ := hafter c rfl
    simp only [isGapChar, Bool.or_eq_false_iff, decide_eq_false_iff_not] at hblank
    have hsettle : s.settle k = indent := by rw [BlockState.settle, hindent]; rfl
    rw [blockFrom, if_neg (by decide)]
    simp [hblank.1, hblank.2, hbreak, hsettle, Nat.ne_of_lt hk]

namespace BlockState.Holds

theorem text_inside (h : s.Holds true written) : s.text = written := by
  obtain ⟨hlast, hlater⟩ := h.inside rfl
  rw [← h.written, withBreaks, hlast, hlater]
  rfl

theorem endLine (h : s.Holds true written) (hc : isBreak c = true) :
    ({ s with lastBreak := some c } : BlockState).Holds false (c :: written) where
  written := by
    rw [withBreaks, (h.inside rfl).2, h.text_inside]
    rfl
  text := h.text
  breaks d hd := by
    rw [(h.inside rfl).2] at hd
    rw [List.mem_singleton.1 hd]
    exact hc
  inside hinside := by cases hinside
  between _ _ := Option.some_ne_none c

theorem emptyLine (h : s.Holds false written) (hc : isBreak c = true) :
    ({ s with widest := max s.widest 0, laterBreaks := c :: s.laterBreaks } : BlockState).Holds false
    (c :: written) where
  written := congrArg (c :: ·) h.written
  text := h.text
  breaks d hd := by
    rcases List.mem_cons.1 hd with rfl | hd
    · exact hc
    · exact h.breaks d hd
  inside hinside := by cases hinside
  between := h.between

theorem character (h : s.Holds true written) (hc : isBreak c = false) :
    ({ s with text := c :: s.text } : BlockState).Holds true (c :: written) where
  written := by
    rw [withBreaks, (h.inside rfl).1, (h.inside rfl).2, h.text_inside]
    rfl
  text d hd := by
    cases hd
    exact hc
  breaks := h.breaks
  inside := h.inside
  between hbetween := by cases hbetween

theorem startLine (h : s.Holds false written) (hc : isBreak c = false) (i : Option Nat) :
    (({ s with indent := i } : BlockState).startLine true c).Holds true (c :: written) where
  written := congrArg (c :: ·) h.written
  text d hd := by
    cases hd
    exact hc
  breaks d hd := by cases hd
  inside _ := ⟨rfl, rfl⟩
  between hbetween := by cases hbetween

theorem nothing (indent : Option Nat) (least : Nat) : ({ indent, least } : BlockState).Holds false [] where
  written := rfl
  text d hd := by cases hd
  breaks d hd := by cases hd
  inside hinside := by cases hinside
  between _ htext := absurd rfl htext

end BlockState.Holds

/-- **The lines of a block** are read as they stand. Inside a line the text grows, and between lines the breaks. -/
theorem blockFrom_blockLines (atStart : Bool) (hholds : s.Holds (!atStart) written)
    (hindent : s.indent = some indent) (hcolumn : atStart = true → column = 0) : ∃ s' line',
      blockFrom true chomp (!atStart) s line column (blockLines indent atStart cs ++ tail) =
        blockFrom true chomp false s' line' 0 tail ∧
      s'.Holds false ((blockLines 0 atStart cs).reverse ++ written) ∧ s'.indent = some indent ∧ line ≤ line' := by
  induction cs generalizing s written line column atStart with
  | nil =>
    cases atStart with
    | true =>
      rw [hcolumn rfl]
      exact ⟨s, line, rfl, hholds, hindent, le_rfl⟩
    | false => exact ⟨_, line + 1, blockFrom_endLine rfl, hholds.endLine rfl, hindent, by omega⟩
  | cons c cs ih =>
    cases hbreak : isLineBreak c with
    | true =>
      have hzero : (blockLines 0 atStart (c :: cs)).reverse ++ written =
          (blockLines 0 true cs).reverse ++ c :: written := by
        rw [blockLines, if_pos hbreak, List.reverse_cons, List.append_assoc, List.singleton_append]
      rw [hzero, blockLines, if_pos hbreak, List.cons_append]
      cases atStart with
      | true =>
        obtain ⟨s', line', hread, hholds', hindent', hline⟩ := ih true (hholds.emptyLine hbreak) hindent fun _ => rfl
        rw [hcolumn rfl]
        exact ⟨s', line', (blockFrom_emptyLine hbreak).trans hread, hholds', hindent', by omega⟩
      | false =>
        obtain ⟨s', line', hread, hholds', hindent', hline⟩ := ih true (hholds.endLine hbreak) hindent fun _ => rfl
        exact ⟨s', line', (blockFrom_endLine hbreak).trans hread, hholds', hindent', by omega⟩
    | false =>
      have hzero : (blockLines 0 atStart (c :: cs)).reverse ++ written =
          (blockLines 0 false cs).reverse ++ c :: written := by
        rw [blockLines, if_neg (by simp [hbreak])]
        cases atStart <;> simp [pad]
      rw [hzero, blockLines, if_neg (by simp [hbreak])]
      cases atStart with
      | true =>
        have hsettle : s.settle indent = indent := by rw [BlockState.settle, hindent]; rfl
        have hstart := @blockFrom_startLine c (blockLines indent false cs ++ tail) s chomp line indent hsettle
          (fun h => by cases hindent.symm.trans h) (fun i hi => by cases hindent.symm.trans hi; exact le_rfl) hbreak
        obtain ⟨s', line', hread, hholds', hindent', hline⟩ :=
          ih false (hholds.startLine hbreak (some indent)) rfl fun h => by cases h
        refine ⟨s', line', ?_, hholds', hindent', hline⟩
        rw [hcolumn rfl, if_pos rfl, List.append_assoc]
        refine (blockFrom_pad fun i hi => by cases hindent.symm.trans hi; omega).trans ?_
        rw [Nat.zero_add]
        exact hstart.trans hread
      | false =>
        obtain ⟨s', line', hread, hholds', hindent', hline⟩ :=
          ih false (hholds.character hbreak) hindent fun h => by cases h
        exact ⟨s', line', (blockFrom_inLine hbreak).trans hread, hholds', hindent', hline⟩

/-- a text that starts with neither a blank nor a break shows where its block is -/
theorem blockFrom_unsettled (hneeds : needsIndent cs = false) (hne : cs ≠ []) (hprintable : allPrintable cs = true)
    {least : Nat} (hleast : least ≤ indent) : ∃ s' line',
      blockFrom true chomp false { indent := none, least } line 0 (blockLines indent true cs ++ tail) =
        blockFrom true chomp false s' line' 0 tail ∧
      s'.Holds false (blockLines 0 true cs).reverse ∧ s'.indent = some indent ∧ line ≤ line' := by
  obtain ⟨c, cs, rfl⟩ := List.exists_cons_of_ne_nil hne
  simp only [needsIndent, startsWith, List.head?_cons, Option.map_some, Option.getD_some,
    Bool.or_eq_false_iff] at hneeds
  rw [allPrintable, List.all_cons, Bool.and_eq_true] at hprintable
  have hblank : isGapChar c = false :=
    isGapChar_of_isPrintable hprintable.1 (by simpa [isSpace] using hneeds.1)
  have hsettle : (({ indent := none, least } : BlockState)).settle indent = indent := by
    simp [BlockState.settle, hleast]
  have hstart := @blockFrom_startLine c (blockLines indent false cs ++ tail) { indent := none, least } chomp line indent
    hsettle (fun _ => hblank) (fun i hi => by cases hi) hneeds.2
  obtain ⟨s', line', hread, hholds, hindent, hline⟩ :=
    blockFrom_blockLines false ((BlockState.Holds.nothing none least).startLine hneeds.2 (some indent)) rfl
      fun h => by cases h
  refine ⟨s', line', ?_, ?_, hindent, hline⟩
  · rw [blockLines, if_neg (by simp [hneeds.2]), if_pos rfl, List.append_assoc]
    refine (blockFrom_pad fun i hi => by cases hi).trans ?_
    rw [Nat.zero_add]
    exact hstart.trans hread
  · rw [blockLines, if_neg (by simp [hneeds.2]), if_pos rfl]
    simpa [pad] using hholds

/-- **Block scalars.** What is written as a block is read as the text, and the reader stands on what comes next. -/
theorem blockScalar_literal {text : String} {parent k : Nat} {after : List Char} (hsuits : Suits text .literal)
    (hparent : 0 < parent) (hk : k ≤ parent) (hafter : ∀ c ∈ after.head?, Solid c) : ∃ line',
      blockScalar true parent ⟨blockHints text.toList ++ '\n' :: (blockLines (parent + 1) true text.toList ++
        (pad k ++ after)), line, column⟩ = some ⟨text, true, ⟨after, line', k⟩⟩ ∧ line < line' := by
  obtain _ | _ | _ | ⟨hblock, hbreak⟩ := hsuits
  have hne : text.toList ≠ [] := List.ne_nil_of_mem hbreak
  simp only [allowsBlock, Bool.and_eq_true] at hblock
  have hlines : ∃ s' line', blockFrom true (Chomp.of text.toList) false
      { indent := (if needsIndent text.toList then some 2 else none).map fun n =>
          if parent = 0 then n else parent - 1 + n
        least := max parent 1 } (line + 1) 0 (blockLines (parent + 1) true text.toList ++ (pad k ++ after)) =
      blockFrom true (Chomp.of text.toList) false s' line' 0 (pad k ++ after) ∧
      s'.Holds false (blockLines 0 true text.toList).reverse ∧ s'.indent = some (parent + 1) ∧ line + 1 ≤ line' := by
    cases hneeds : needsIndent text.toList with
    | true =>
      have hindent : parent - 1 + 2 = parent + 1 := by omega
      obtain ⟨s', line', hread, hholds, hsettled, hline⟩ := @blockFrom_blockLines text.toList (pad k ++ after) [] _
        (Chomp.of text.toList) (line + 1) 0 (parent + 1) true (.nothing (some (parent + 1)) (max parent 1)) rfl
        fun _ => rfl
      rw [List.append_nil] at hholds
      refine ⟨s', line', ?_, hholds, hsettled, hline⟩
      rw [if_pos rfl, Option.map_some, if_neg (by omega), hindent]
      exact hread
    | false => exact blockFrom_unsettled hneeds hne hblock.1.1 (by omega)
  obtain ⟨s', line', hread, hholds, hindent, hline⟩ := hlines
  refine ⟨line', ?_, hline⟩
  have hend := @blockFrom_end s' (Chomp.of text.toList) line' (parent + 1) k after hindent (Nat.lt_succ_of_le hk) hafter
  rw [hholds.finish_eq hne, String.ofList_toList] at hend
  rw [blockScalar, blockHeader_blockHints]
  simp only [Cursor.skip, Cursor.skipWhile, List.drop_left]
  refine Eq.trans ?_ (hread.trans hend)
  rfl

end Fleet.Yaml
