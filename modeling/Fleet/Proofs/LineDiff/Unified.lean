/-
The unified form shows every change once.

- `keeps_hunks`: hunks leave out lines that stay, and no others.
- `Shows`: what a piece of the unified form adds to the lines with a mark, wherever it stands. Pieces are put together
  by `Shows.append`: lines (`shows_signed`), headers (`shows_header`), hunks (`shows_hunkText`).
- `shown_unified`: the lines with the mark of a change, counted in the text, are those of the script.
- `length_lines_between`, `exists_change_of_ne`: what the counts of a script say about its texts.
-/
import Fleet.Proofs.LineDiff.Lines
import Fleet.Proofs.LineDiff.Tidy

namespace Fleet.LineDiff

variable {script script' script'' h : List Block} {kind : Kind} {b : Block} {P : String → Prop}

/-! ## Counts -/

@[simp] theorem countLines_nil (kind : Kind) : countLines kind [] = 0 := rfl

theorem countLines_cons (kind : Kind) (b : Block) (script : List Block) :
    countLines kind (b :: script) = (if b.kind = kind then b.size else 0) + countLines kind script := rfl

@[simp] theorem countLines_append (kind : Kind) (script script' : List Block) :
    countLines kind (script ++ script') = countLines kind script + countLines kind script' := by
  induction script with
  | nil => simp
  | cons b script ih => rw [List.cons_append, countLines_cons, ih, countLines_cons, Nat.add_assoc]

theorem length_oldLines (script : List Block) :
    (oldLines script).length = countLines .same script + countLines .removed script := by
  induction script with
  | nil => rfl
  | cons b script ih =>
    rw [oldLines_cons, List.length_append, ih, Block.oldLines, countLines_cons, countLines_cons, Block.size]
    cases b.kind <;> simp <;> omega

theorem length_newLines (script : List Block) :
    (newLines script).length = countLines .same script + countLines .added script := by
  induction script with
  | nil => rfl
  | cons b script ih =>
    rw [newLines_cons, List.length_append, ih, Block.newLines, countLines_cons, countLines_cons, Block.size]
    cases b.kind <;> simp <;> omega

/-- without changes the texts are the same -/
theorem oldLines_eq_newLines (hadded : additions script = 0) (hremoved : deletions script = 0) :
    oldLines script = newLines script := by
  unfold additions deletions at *
  induction script with
  | nil => rfl
  | cons b script ih =>
    rw [countLines_cons, Nat.add_eq_zero_iff] at hadded hremoved
    rw [oldLines_cons, newLines_cons, ih hadded.2 hremoved.2, Block.oldLines, Block.newLines]
    congr 1
    cases hkind : b.kind with
    | same => rfl
    | removed => simpa [hkind, Block.size] using hremoved.1
    | added => simpa [hkind, Block.size, eq_comm] using hadded.1

/-! ## Hunks -/

/-- each line of the script is so -/
def AllLines (P : String → Prop) (script : List Block) : Prop := ∀ b ∈ script, ∀ l ∈ b.lines, P l

theorem AllLines.of_texts (hold : ∀ l ∈ oldLines script, P l) (hnew : ∀ l ∈ newLines script, P l) :
    AllLines P script := by
  intro b hb l hl
  by_cases hadded : b.kind = .added
  · exact hnew l (List.mem_flatMap.2 ⟨b, hb, by simpa [Block.newLines, hadded] using hl⟩)
  · exact hold l (List.mem_flatMap.2 ⟨b, hb, by simpa [Block.oldLines, hadded] using hl⟩)

/-- `script'` has all changes of `script`, and no lines but its -/
structure Keeps (script script' : List Block) : Prop where
  changes : ∀ kind ≠ .same, countLines kind script' = countLines kind script
  lines : ∀ P, AllLines P script → AllLines P script'

namespace Keeps

theorem refl (script : List Block) : Keeps script script := ⟨fun _ _ => rfl, fun _ h => h⟩

theorem trans (h : Keeps script script') (h' : Keeps script' script'') : Keeps script script'' :=
  ⟨fun kind hkind => (h'.changes kind hkind).trans (h.changes kind hkind), fun P hP => h'.lines P (h.lines P hP)⟩

theorem append {rest rest' : List Block} (h : Keeps script script') (hrest : Keeps rest rest') :
    Keeps (script ++ rest) (script' ++ rest') where
  changes kind hkind := by rw [countLines_append, h.changes kind hkind, hrest.changes kind hkind, countLines_append]
  lines P hP := by
    obtain ⟨hscript, htail⟩ := List.forall_mem_append.1 hP
    exact List.forall_mem_append.2 ⟨h.lines P hscript, hrest.lines P htail⟩

theorem cons (b : Block) (h : Keeps script script') : Keeps (b :: script) (b :: script') := (refl [b]).append h

/-- of lines that stay some may be left out -/
theorem of_same (hb : b.kind = .same) (h : ∀ c ∈ script, c.kind = .same ∧ c.lines ⊆ b.lines) : Keeps [b] script where
  changes kind hkind := by
    have hnone : countLines kind script = 0 := by
      induction script with
      | nil => rfl
      | cons c script ih =>
        obtain ⟨hc, hrest⟩ := List.forall_mem_cons.1 h
        rw [countLines_cons, if_neg (hc.1 ▸ hkind.symm), ih hrest]
    rw [hnone, countLines_cons, if_neg (hb ▸ hkind.symm), countLines_nil]
  lines P hP c hc l hl := hP b List.mem_cons_self l ((h c hc).2 hl)

end Keeps

theorem lines_firstLines (b : Block) (n : Nat) : (b.firstLines n).lines ⊆ b.lines := List.take_subset n b.lines

theorem lines_lastLines (b : Block) (n : Nat) : (b.lastLines n).lines ⊆ b.lines := List.drop_subset _ b.lines

theorem keeps_trimFirst (script : List Block) : Keeps script (trimFirst script) := by
  cases script with
  | nil => exact .refl []
  | cons b script =>
    rw [trimFirst]
    split
    · rename_i hsame
      have hlast : Keeps [b] [b.lastLines context] :=
        .of_same hsame (List.forall_mem_singleton.2 ⟨hsame, lines_lastLines b context⟩)
      exact hlast.append (.refl script)
    · exact .refl _

theorem keeps_trimLast (script : List Block) : Keeps script (trimLast script) := by
  fun_induction trimLast script with
  | case1 => exact .refl []
  | case2 b =>
    split
    · rename_i hsame
      exact .of_same hsame (List.forall_mem_singleton.2 ⟨hsame, lines_firstLines b context⟩)
    · exact .refl _
  | case3 b c rest ih => exact ih.cons b

/-- what is no hunk has no changes -/
theorem keeps_of_not_isHunk {hunk : List Block} (h : ¬ isHunk hunk = true) : Keeps hunk.reverse [] := by
  match hunk with
  | [] => exact .refl []
  | [b] => exact .of_same (by simpa [isHunk] using h) (by simp)
  | _ :: _ :: _ => exact absurd rfl h

theorem keeps_hunksFrom (hunk rest : List Block) : Keeps (hunk.reverse ++ rest) (hunksFrom hunk rest).flatten := by
  fun_induction hunksFrom hunk rest with
  | case1 hunk hhunk =>
    rw [List.append_nil, List.flatten_singleton]
    exact .refl _
  | case2 hunk hhunk =>
    rw [List.append_nil]
    exact keeps_of_not_isHunk hhunk
  | case3 hunk b rest hlong ih =>
    have hsame : b.kind = .same := of_decide_eq_true (Bool.and_eq_true_iff.1 hlong).1
    have hsplit : Keeps [b] [b.firstLines context, b.lastLines context] :=
      .of_same hsame (by simp [Block.firstLines, Block.lastLines, hsame, List.take_subset, List.drop_subset])
    rw [List.flatten_cons, List.reverse_cons]
    refine Keeps.trans ((Keeps.refl hunk.reverse).append (hsplit.append (.refl rest))) ?_
    rw [List.append_assoc]
    exact (Keeps.refl hunk.reverse).append (ih.cons _)
  | case4 hunk b rest hshort ih => rwa [List.reverse_cons, List.append_assoc] at ih

/-- **Every change is in one hunk.** -/
theorem keeps_hunks (script : List Block) : Keeps script (hunks script).flatten :=
  ((keeps_trimFirst script).trans (keeps_trimLast _)).trans (keeps_hunksFrom [] _)

/-! ## The text -/

/-- the mark of a line in the unified form -/
def Kind.mark : Kind → Char
  | .same => ' '
  | .removed => '-'
  | .added => '+'

theorem toList_sign (kind : Kind) : (sign kind).toList = [kind.mark] := by cases kind <;> rfl

theorem Kind.mark_inj {k k' : Kind} : k.mark = k'.mark ↔ k = k' := by cases k <;> cases k' <;> decide

/-- the lines that begin with a mark -/
def marked (mark : Char) (ls : List (List Char)) : Nat := ls.countP fun l => l.head? = some mark

/-- the lines of a unified text, behind the two of its heading, that begin with a mark -/
def shown (mark : Char) (text : String) : Nat := marked mark (((lines text).drop 2).map String.toList)

/-- wherever the text stands, it brings so many lines with the mark -/
structure Shows (mark : Char) (text : List Char) (n : Nat) : Prop where
  -- a line that ends in CR would take an LF that follows
  apart : ∀ rest, rest.head? ≠ some '\n' → (text ++ rest).head? ≠ some '\n'
  count : ∀ rest, rest.head? ≠ some '\n' →
    marked mark (linesFrom [] (text ++ rest)) = n + marked mark (linesFrom [] rest)

variable {mark : Char} {text text' : List Char} {m n : Nat}

theorem Shows.nil (mark : Char) : Shows mark [] 0 := ⟨fun _ h => h, fun _ _ => (Nat.zero_add _).symm⟩

theorem Shows.append (h : Shows mark text m) (h' : Shows mark text' n) : Shows mark (text ++ text') (m + n) where
  apart rest hrest := by
    rw [List.append_assoc]
    exact h.apart _ (h'.apart rest hrest)
  count rest hrest := by
    rw [List.append_assoc, h.count _ (h'.apart rest hrest), h'.count rest hrest, Nat.add_assoc]

/-- one line, by its first character -/
theorem shows_line {c : Char} {body stop : List Char} (mark : Char) (hbody : Plain (c :: body)) (hstop : stop ∈ stops) :
    Shows mark (c :: body ++ stop) (if c = mark then 1 else 0) where
  apart rest _ := by
    have hc := (hbody c List.mem_cons_self).1
    simpa using hc
  count rest hrest := by
    rw [linesFrom_ended hbody hstop hrest, marked, List.countP_cons, Nat.add_comm]
    simp [marked]

theorem isEnded_of_stop {line : String} {body stop : List Char} (hline : line.toList = body ++ stop)
    (hstop : stop ∈ stops) : isEnded line = true := by
  simp only [stops, List.mem_cons, List.not_mem_nil, or_false] at hstop
  obtain rfl | rfl | rfl := hstop <;> simp [isEnded, hline, List.getLast?_append]

theorem not_isEnded {line : String} (hline : Plain line.toList) : ¬ isEnded line = true := by
  simp only [isEnded, Bool.or_eq_true, decide_eq_true_eq, not_or]
  exact ⟨fun h => (hline _ (List.mem_of_getLast? h)).1 rfl, fun h => (hline _ (List.mem_of_getLast? h)).2 rfl⟩

/-- a line brings its mark once, and the note behind a line without an end brings none -/
theorem shows_signed {line : String} (hmark : mark ≠ '\\') (hline : IsLine line.toList) (kind : Kind) :
    Shows mark (signed kind line).toList (if kind.mark = mark then 1 else 0) := by
  have hsign : kind.mark ≠ '\n' ∧ kind.mark ≠ '\r' := by cases kind <;> decide
  rw [signed, String.toList_append, String.toList_append, toList_sign]
  generalize hcs : line.toList = cs at hline
  cases hline with
  | ended hbody hstop =>
    rw [if_pos (isEnded_of_stop hcs hstop), String.toList_empty, List.append_nil]
    have hfull := shows_line mark (hbody.cons hsign) hstop
    exact hfull
  | unended hbody hne =>
    rw [if_neg (not_isEnded (hcs ▸ hbody))]
    have hnote : Shows mark "\\ No newline at end of file\n".toList (if '\\' = mark then 1 else 0) :=
      shows_line mark (by decide : Plain "\\ No newline at end of file".toList) newline_mem_stops
    have hfull := (shows_line mark (hbody.cons hsign) newline_mem_stops).append hnote
    rw [if_neg hmark.symm, Nat.add_zero] at hfull
    simpa using hfull

theorem plain_number (n : Nat) : Plain (toString n).toList := by
  intro c hc
  rw [Nat.toString_eq_repr, Nat.toList_repr] at hc
  have hdigit := Nat.isDigit_of_mem_toDigits (by decide) (by decide) hc
  exact ⟨fun h => absurd (h ▸ hdigit) (by decide), fun h => absurd (h ▸ hdigit) (by decide)⟩

theorem plain_extent (start stop : Nat) : Plain (extent start stop).toList := by
  rw [extent]
  split
  · exact plain_number _
  split
  · simpa [toString] using (plain_number start).append (by decide : Plain [',', '0'])
  · simpa [toString] using (plain_number (start + 1)).append (.cons (by decide) (plain_number (stop - start)))

theorem shows_header (hmark : mark ≠ '@') (h : List Block) : Shows mark (header h).toList 0 := by
  rw [header]
  split
  · rename_i first last _ _
    have hold := plain_extent first.oldAt last.oldEnd
    have hnew := plain_extent first.newAt last.newEnd
    have hbody : Plain ('@' :: (['@', ' ', '-'] ++ (_ ++ ([' ', '+'] ++ (_ ++ [' ', '@', '@']))))) :=
      .cons (by decide) (.append (by decide) (hold.append (.append (by decide) (hnew.append (by decide)))))
    have hline := shows_line mark hbody newline_mem_stops
    rw [if_neg hmark.symm] at hline
    simpa [toString] using hline
  · exact .nil mark

theorem shows_lines {ls : List String} (hmark : mark ≠ '\\') (hlines : ∀ l ∈ ls, IsLine l.toList) (kind : Kind) :
    Shows mark (String.join (ls.map (signed kind))).toList (if kind.mark = mark then ls.length else 0) := by
  induction ls with
  | nil => simpa using Shows.nil mark
  | cons l ls ih =>
    obtain ⟨hl, hrest⟩ := List.forall_mem_cons.1 hlines
    have hcons := (shows_signed hmark hl kind).append (ih hrest)
    rw [List.map_cons, String.join_cons, String.toList_append]
    have hcount : (if kind.mark = mark then (l :: ls).length else 0) =
        (if kind.mark = mark then 1 else 0) + if kind.mark = mark then ls.length else 0 := by
      split <;> simp [Nat.add_comm]
    rwa [hcount]

theorem shows_blocks (hkind : kind ≠ .same) (hlines : AllLines (fun l => IsLine l.toList) h) :
    Shows kind.mark (String.join (h.flatMap fun b => b.lines.map (signed b.kind))).toList (countLines kind h) := by
  induction h with
  | nil => exact .nil kind.mark
  | cons b h ih =>
    obtain ⟨hb, hrest⟩ := List.forall_mem_cons.1 hlines
    have hmark : kind.mark ≠ '\\' := by cases kind <;> decide
    have hcons := (shows_lines hmark hb b.kind).append (ih hrest)
    rw [List.flatMap_cons, String.join_append, String.toList_append, countLines_cons]
    simpa only [Kind.mark_inj, Block.size] using hcons

theorem shows_hunkText (hkind : kind ≠ .same) (hlines : AllLines (fun l => IsLine l.toList) h) :
    Shows kind.mark (hunkText h).toList (countLines kind h) := by
  have hmark : kind.mark ≠ '@' := by cases kind <;> decide
  rw [hunkText, String.toList_append, ← Nat.zero_add (countLines kind h)]
  exact (shows_header hmark h).append (shows_blocks hkind hlines)

theorem shows_hunks (hkind : kind ≠ .same) {hs : List (List Block)}
    (hlines : AllLines (fun l => IsLine l.toList) hs.flatten) :
    Shows kind.mark (String.join (hs.map hunkText)).toList (countLines kind hs.flatten) := by
  induction hs with
  | nil => exact .nil kind.mark
  | cons h hs ih =>
    obtain ⟨hh, hrest⟩ := List.forall_mem_append.1 hlines
    rw [List.map_cons, String.join_cons, String.toList_append, List.flatten_cons, countLines_append]
    exact (shows_hunkText hkind hh).append (ih hrest)

/-- the two lines of the heading are set aside -/
theorem shown_heading {oldName newName t : String} (hold : Plain oldName.toList) (hnew : Plain newName.toList)
    (h : Shows mark t.toList n) : shown mark (s!"--- {oldName}\n+++ {newName}\n" ++ t) = n := by
  have hfirst : Plain (['-', '-', '-', ' '] ++ oldName.toList) := .append (by decide) hold
  have hsecond : Plain (['+', '+', '+', ' '] ++ newName.toList) := .append (by decide) hnew
  have htext : (s!"--- {oldName}\n+++ {newName}\n" ++ t).toList = ['-', '-', '-', ' '] ++ oldName.toList ++ ['\n'] ++
      (['+', '+', '+', ' '] ++ newName.toList ++ ['\n'] ++ t.toList) := by
    simp [toString]
  have hrest := h.apart [] (by simp)
  have hcount := h.count [] (by simp)
  rw [List.append_nil] at hrest hcount
  rw [shown, List.map_drop, map_toList_lines, htext, linesFrom_ended hfirst (by decide) (by simp),
    linesFrom_ended hsecond (by decide) hrest]
  exact hcount

/-- **The lines with the mark of a change are those of the script.** -/
theorem shown_unified (kind : Kind) (hkind : kind ≠ .same) {oldName newName : String} (hold : Plain oldName.toList)
    (hnew : Plain newName.toList) (hlines : AllLines (fun l => IsLine l.toList) script) :
    shown kind.mark (unified oldName newName script) = countLines kind script := by
  have hkeeps := keeps_hunks script
  have hshows := shows_hunks hkind (hkeeps.lines _ hlines)
  rw [hkeeps.changes kind hkind] at hshows
  rw [unified]
  split
  · rename_i hnone
    rw [← hkeeps.changes kind hkind, hnone]
    rfl
  · exact shown_heading hold hnew hshows

/-! ## Scripts between texts -/

theorem allLines_between (old new : String) : AllLines (fun l => IsLine l.toList) (between old new) := by
  have hspells := spells_between old new
  refine .of_texts ?_ ?_
  · rw [hspells.old]
    exact fun l hl => isLine_of_mem_lines hl
  · rw [hspells.new]
    exact fun l hl => isLine_of_mem_lines hl

/-- what comes makes up for what goes and for what the new text is longer by -/
theorem length_lines_between (old new : String) :
    (lines new).length + deletions (between old new) = (lines old).length + additions (between old new) := by
  have hspells := spells_between old new
  have hold := length_oldLines (between old new)
  have hnew := length_newLines (between old new)
  rw [hspells.old] at hold
  rw [hspells.new] at hnew
  rw [hold, hnew, additions, deletions]
  omega

/-- different texts differ by a line -/
theorem exists_change_of_ne {old new : String} (h : old ≠ new) :
    0 < additions (between old new) + deletions (between old new) := by
  refine Nat.pos_of_ne_zero fun hzero => h ?_
  obtain ⟨hadded, hremoved⟩ := Nat.add_eq_zero_iff.1 hzero
  have hspells := spells_between old new
  have hlines := oldLines_eq_newLines hadded hremoved
  rw [hspells.old, hspells.new] at hlines
  exact lines_inj hlines

end Fleet.LineDiff
