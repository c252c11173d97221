/-
Lines and fields of texts.

- `cut?_eq_some_iff`: a text is cut at its first separator.
- `lines_append`: behind the end of a line, the lines of a text are those of the rest.
- `lines_of_not_mem`, `lines_ended`: a text without line feeds is one line; if it ends a line, a carriage return before
  the end belongs to the end (`dropReturn_cases`).
- `exists_lines`: every text is made of such lines.
-/
import Mathlib.Data.List.Basic
import Fleet.Text.Lines

namespace Fleet.Text

variable {sep : Char} {cs rest front back line : List Char} {s : String}

/-! ## Fields -/

theorem cut?_append (h : sep ∉ cs) : cut? sep (cs ++ sep :: rest) = some (cs, rest) := by
  induction cs with
  | nil => simp [cut?]
  | cons c cs ih =>
    rw [List.mem_cons, not_or] at h
    rw [List.cons_append, cut?, if_neg (Ne.symm h.1), ih h.2]

theorem cut?_of_not_mem (h : sep ∉ cs) : cut? sep cs = none := by
  induction cs with
  | nil => rfl
  | cons c cs ih =>
    rw [List.mem_cons, not_or] at h
    rw [cut?, if_neg (Ne.symm h.1), ih h.2]

theorem cut?_eq_some_iff : cut? sep cs = some (front, back) ↔ cs = front ++ sep :: back ∧ sep ∉ front := by
  constructor
  · intro h
    by_cases hsep : sep ∈ cs
    · obtain ⟨before, after, rfl, hbefore⟩ := List.eq_append_cons_of_mem hsep
      rw [cut?_append hbefore] at h
      cases h
      exact ⟨rfl, hbefore⟩
    · rw [cut?_of_not_mem hsep] at h
      cases h
  · rintro ⟨rfl, hfront⟩
    exact cut?_append hfront

theorem not_mem_append_iff {s t : String} : sep ∉ (s ++ t).toList ↔ sep ∉ s.toList ∧ sep ∉ t.toList := by
  rw [String.toList_append, List.mem_append, not_or]

/-! ## Texts put together -/

theorem intercalate_cons (separator first : String) (l : List String) :
    separator.intercalate (first :: l) = first ++ String.join (l.map (separator ++ ·)) := by
  induction l generalizing first with
  | nil => simp
  | cons next l ih =>
    rw [String.intercalate_cons_of_ne_nil (List.cons_ne_nil _ _), ih, List.map_cons, String.join_cons]
    simp only [String.append_assoc]

/-! ## Lines -/

theorem splitLines_of_not_mem (h : '\n' ∉ cs) : splitLines line cs = ([], line.reverse ++ cs) := by
  induction cs generalizing line with
  | nil => simp [splitLines]
  | cons c cs ih =>
    rw [List.mem_cons, not_or] at h
    rw [splitLines, if_neg (Ne.symm h.1), ih h.2]
    simp

/-- the line that is open at a line feed ends there -/
theorem splitLines_append (line cs rest : List Char) : splitLines line (cs ++ '\n' :: rest) =
    ((splitLines line cs).1 ++ (splitLines line cs).2 :: (splitLines [] rest).1, (splitLines [] rest).2) := by
  induction cs generalizing line with
  | nil => rfl
  | cons c cs ih =>
    rw [List.cons_append, splitLines, splitLines]
    split
    · rw [ih []]
      rfl
    · exact ih _

theorem lines_eq (s : String) : lines s = (splitLines [] s.toList).1.map dropReturn ++
    if (splitLines [] s.toList).2.isEmpty then [] else [(splitLines [] s.toList).2] := rfl

theorem toList_ended (s : String) : (s ++ "\n").toList = s.toList ++ ['\n'] := by rw [String.toList_append]; rfl

/-- **Behind the end of a line** the lines are those of the rest. -/
theorem lines_append (s t : String) : lines (s ++ "\n" ++ t) = lines (s ++ "\n") ++ lines t := by
  rw [lines_eq, lines_eq (s ++ "\n"), lines_eq t, String.toList_append, toList_ended, List.append_assoc,
    List.singleton_append, splitLines_append, splitLines_append]
  simp [splitLines]

theorem lines_of_not_mem (h : '\n' ∉ s.toList) : lines s = if s.toList.isEmpty then [] else [s.toList] := by
  rw [lines_eq, splitLines_of_not_mem h]
  rfl

theorem lines_ended (h : '\n' ∉ s.toList) : lines (s ++ "\n") = [dropReturn s.toList] := by
  rw [lines_eq, toList_ended, splitLines_append, splitLines_of_not_mem h]
  rfl

/-- a line that is ended loses a carriage return, and nothing else -/
theorem dropReturn_cases (line : List Char) :
    (line.getLast? ≠ some '\r' ∧ dropReturn line = line) ∨ dropReturn line ++ ['\r'] = line := by
  unfold dropReturn
  split
  · rename_i hlast
    exact .inr (List.dropLast_append_getLast? _ hlast)
  · rename_i hlast
    exact .inl ⟨hlast, rfl⟩

theorem dropReturn_concat (line : List Char) : dropReturn (line ++ ['\r']) = line := by simp [dropReturn]

/-- **Every text is made of lines**, each with its line feed, and of what is left behind the last one. -/
theorem exists_lines (text : String) : ∃ (ended : List String) (last : String), (∀ l ∈ ended, '\n' ∉ l.toList) ∧
    '\n' ∉ last.toList ∧ text = String.join (ended.map (· ++ "\n")) ++ last := by
  have hchars (cs : List Char) : ∃ (ended : List String) (last : String), (∀ l ∈ ended, '\n' ∉ l.toList) ∧
      '\n' ∉ last.toList ∧ String.ofList cs = String.join (ended.map (· ++ "\n")) ++ last := by
    induction hlength : cs.length using Nat.strongRecOn generalizing cs with
    | _ n ih =>
      by_cases hbreak : '\n' ∈ cs
      · obtain ⟨line, rest, rfl, hline⟩ := List.eq_append_cons_of_mem hbreak
        have hshorter : rest.length < n := by
          rw [← hlength, List.length_append, List.length_cons]
          omega
        obtain ⟨ended, last, hended, hlast, hrest⟩ := ih rest.length hshorter rest rfl
        refine ⟨.ofList line :: ended, last, List.forall_mem_cons.2 ⟨by simpa using hline, hended⟩, hlast, ?_⟩
        rw [List.map_cons, String.join_cons, String.append_assoc, ← hrest, ← String.toList_inj]
        simp
      · exact ⟨[], .ofList cs, List.forall_mem_nil _, by simpa using hbreak, by simp [String.join]⟩
  simpa using hchars text.toList

end Fleet.Text
