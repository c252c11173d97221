/-
The lines of a text.

- `flatten_linesFrom`, `lines_inj`: lines one after the other are the text again, so texts of the same lines are the
  same.
- `isLine_of_mem_lines`: a line has no breaks but the one that ends it (`IsLine`).
- `linesFrom_ended`: a text that goes on with an ended line has that line, and then the lines of the rest.
-/
import Fleet.LineDiff.Script

namespace Fleet.LineDiff

variable {body stop rest line : List Char} {text text' : String}

/-- without line breaks -/
def Plain (cs : List Char) : Prop := ∀ c ∈ cs, c ≠ '\n' ∧ c ≠ '\r'

-- decided along the text: characters are finitely many, and could be tried one by one
instance : DecidablePred Plain := fun cs => List.decidableBAll _ cs

theorem Plain.cons {c : Char} (hc : c ≠ '\n' ∧ c ≠ '\r') (h : Plain body) : Plain (c :: body) :=
  List.forall_mem_cons.2 ⟨hc, h⟩

theorem Plain.append (h : Plain body) (h' : Plain rest) : Plain (body ++ rest) := List.forall_mem_append.2 ⟨h, h'⟩

/-- how a line can end -/
def stops : List (List Char) := [['\n'], ['\r', '\n'], ['\r']]

theorem newline_mem_stops : ['\n'] ∈ stops := List.mem_cons_self

/-- breaks stand at the end of a line only -/
inductive IsLine : List Char → Prop where
  | ended {body stop : List Char} (hbody : Plain body) (hstop : stop ∈ stops) : IsLine (body ++ stop)
  | unended {body : List Char} (hbody : Plain body) (hne : body ≠ []) : IsLine body

/-! ## From lines to the text -/

theorem flatten_linesFrom (line cs : List Char) : (linesFrom line cs).flatten = line.reverse ++ cs := by
  fun_induction linesFrom line cs with
  | case1 line hempty => simp [List.isEmpty_iff.1 hempty]
  | case2 line hempty => simp
  | case3 line rest ih => simp [ih]
  | case4 line c rest hnot hbreak ih => simp [ih]
  | case5 line c rest hnot hbreak ih => simp [ih]

theorem map_toList_lines (text : String) : (lines text).map String.toList = linesFrom [] text.toList := by
  simp [lines, Function.comp_def]

theorem flatten_lines (text : String) : ((lines text).map String.toList).flatten = text.toList := by
  rw [map_toList_lines, flatten_linesFrom]
  rfl

theorem lines_inj (h : lines text = lines text') : text = text' := by
  rw [← String.toList_inj, ← flatten_lines, h, flatten_lines]

/-! ## From the text to lines -/

theorem isLine_of_mem_linesFrom {l : List Char} (hline : Plain line.reverse) (hl : l ∈ linesFrom line rest) :
    IsLine l := by
  fun_induction linesFrom line rest with
  | case1 line hempty => cases hl
  | case2 line hempty =>
    rw [List.mem_singleton.1 hl]
    refine .unended hline fun hnil => hempty ?_
    rw [List.reverse_eq_nil_iff.1 hnil]
    rfl
  | case3 line rest ih =>
    obtain rfl | hrest := List.mem_cons.1 hl
    · have hstop : ['\r', '\n'] ∈ stops := by decide
      simpa using IsLine.ended hline hstop
    · exact ih (by decide) hrest
  | case4 line c rest hnot hbreak ih =>
    obtain rfl | hrest := List.mem_cons.1 hl
    · have hstop : [c] ∈ stops := by
        simp only [Bool.or_eq_true, decide_eq_true_eq] at hbreak
        obtain rfl | rfl := hbreak <;> decide
      simpa using IsLine.ended hline hstop
    · exact ih (by decide) hrest
  | case5 line c rest hnot hbreak ih =>
    refine ih ?_ hl
    rw [List.reverse_cons]
    exact hline.append (.cons (by simpa using hbreak) (by decide))

theorem isLine_of_mem_lines {l : String} (hl : l ∈ lines text) : IsLine l.toList := by
  obtain ⟨cs, hcs, rfl⟩ := List.mem_map.1 hl
  rw [String.toList_ofList]
  exact isLine_of_mem_linesFrom (by decide) hcs

/-- CR is an end of its own unless LF follows -/
theorem linesFrom_ended (hbody : Plain body) (hstop : stop ∈ stops) (hrest : rest.head? ≠ some '\n')
    (line : List Char) :
    linesFrom line (body ++ stop ++ rest) = (line.reverse ++ (body ++ stop)) :: linesFrom [] rest := by
  induction body generalizing line with
  | nil =>
    simp only [stops, List.mem_cons, List.not_mem_nil, or_false] at hstop
    obtain rfl | rfl | rfl := hstop
    · simp [linesFrom]
    · simp [linesFrom]
    · cases rest with
      | nil => simp [linesFrom]
      | cons c rest =>
        have hc : c ≠ '\n' := by simpa using hrest
        simp [linesFrom, hc]
  | cons c body ih =>
    obtain ⟨hc, hbody⟩ := List.forall_mem_cons.1 hbody
    simpa [linesFrom, hc] using ih hbody (c :: line)

end Fleet.LineDiff
