/-
What is read from a listing of containers.

- `readContainer_eq_some_iff`, `exists_readContainer_iff`: a line is read just if it has two tabs or more, and then the
  name and the image are what stands before the first and the second one.
- `readContainers_append`: each line is read by itself.
- `readContainers_of_lists`: what is listed one container a line is read back.
- `listings_are_read_line_by_line`: so it is with all listings, and lines that are no records do no harm to others.
-/
import Fleet.Proofs.Text
import Fleet.Tooling.Docker

namespace Fleet.Docker

open Text

variable {cs : List Char} {line last stop : String} {lines : List String} {r : ContainerRecord}
  {rs : List ContainerRecord}

/-! ## One line -/

/-- a container as it stands in a listing: name, image and status, with tabs between them -/
def row (r : ContainerRecord) : String := r.name ++ "\t" ++ r.image ++ "\t" ++ r.status

/-- a line that has tabs enough for a record -/
def HasFields (line : String) : Prop := 2 ≤ line.toList.count '\t'

instance : DecidablePred HasFields := fun _ => Nat.decLe _ _

/-- the first two tabs of the row stand behind the name and behind the image -/
structure Tabbed (r : ContainerRecord) : Prop where
  name : '\t' ∉ r.name.toList
  image : '\t' ∉ r.image.toList

theorem toList_row (r : ContainerRecord) :
    (row r).toList = r.name.toList ++ '\t' :: (r.image.toList ++ '\t' :: r.status.toList) := by
  simp [row]

theorem readContainer_eq_some_iff : readContainer cs = some r ↔ cs = (row r).toList ∧ Tabbed r := by
  rw [toList_row, readContainer, Option.bind_eq_some_iff]
  constructor
  · rintro ⟨⟨name, rest⟩, hcut, hrest⟩
    obtain ⟨⟨image, status⟩, hcut', rfl⟩ := Option.map_eq_some_iff.1 hrest
    obtain ⟨rfl, hname⟩ := cut?_eq_some_iff.1 hcut
    obtain ⟨rfl, himage⟩ := cut?_eq_some_iff.1 hcut'
    exact ⟨by simp, by simpa using hname, by simpa using himage⟩
  · rintro ⟨rfl, hname, himage⟩
    refine ⟨_, cut?_append hname, Option.map_eq_some_iff.2 ⟨_, cut?_append himage, ?_⟩⟩
    simp

/-- **A line is read just if it has two tabs or more.** -/
theorem exists_readContainer_iff : (∃ r, readContainer cs = some r) ↔ 2 ≤ cs.count '\t' := by
  constructor
  · rintro ⟨r, hr⟩
    obtain ⟨rfl, -⟩ := readContainer_eq_some_iff.1 hr
    rw [toList_row, List.count_append, List.count_cons_self, List.count_append, List.count_cons_self]
    omega
  · intro h
    obtain ⟨name, rest, rfl, hname⟩ := List.eq_append_cons_of_mem
      (List.count_pos_iff.1 (Nat.lt_of_lt_of_le Nat.zero_lt_two h))
    rw [List.count_append, List.count_eq_zero_of_not_mem hname, List.count_cons_self, Nat.zero_add] at h
    obtain ⟨image, status, rfl, himage⟩ := List.eq_append_cons_of_mem (List.count_pos_iff.1 (Nat.lt_of_succ_lt_succ h))
    exact ⟨⟨.ofList name, .ofList image, .ofList status⟩, readContainer_eq_some_iff.2
      ⟨by simp [toList_row], by simpa using hname, by simpa using himage⟩⟩

theorem count_dropReturn (cs : List Char) : (dropReturn cs).count '\t' = cs.count '\t' := by
  rcases dropReturn_cases cs with ⟨-, hsame⟩ | hdropped
  · rw [hsame]
  · nth_rewrite 2 [← hdropped]
    simp

theorem readContainers_of_not_mem (h : '\n' ∉ line.toList) :
    readContainers line = (readContainer line.toList).toList := by
  rw [readContainers, lines_of_not_mem h]
  split
  · rename_i hempty
    rw [List.isEmpty_iff.1 hempty]
    rfl
  · cases hread : readContainer line.toList <;> simp [hread]

theorem readContainers_ended (h : '\n' ∉ line.toList) :
    readContainers (line ++ "\n") = (readContainer (dropReturn line.toList)).toList := by
  rw [readContainers, lines_ended h]
  cases hread : readContainer (dropReturn line.toList) <;> simp [hread]

/-- what one line gives, with its line feed or without: nothing, if it has no fields, and otherwise one record -/
theorem readContainers_line (hline : '\n' ∉ line.toList) (hstop : stop = "" ∨ stop = "\n") :
    (¬ HasFields line → readContainers (line ++ stop) = []) ∧
    (HasFields line → ∃ r, readContainers (line ++ stop) = [r] ∧ Tabbed r ∧ (row r = line ∨ row r ++ "\r" = line)) := by
  have hread {cs : List Char} (hcount : cs.count '\t' = line.toList.count '\t')
      (hcs : cs = line.toList ∨ cs ++ ['\r'] = line.toList) :
      (¬ HasFields line → (readContainer cs).toList = []) ∧
      (HasFields line → ∃ r, (readContainer cs).toList = [r] ∧ Tabbed r ∧
        (row r = line ∨ row r ++ "\r" = line)) := by
    rw [HasFields, ← hcount, ← exists_readContainer_iff]
    constructor
    · intro hnone
      rw [Option.eq_none_iff_forall_ne_some.2 fun r hr => hnone ⟨r, hr⟩]
      rfl
    · rintro ⟨r, hr⟩
      obtain ⟨rfl, htabbed⟩ := readContainer_eq_some_iff.1 hr
      refine ⟨r, by rw [hr]; rfl, htabbed, hcs.imp String.toList_inj.1 fun h => ?_⟩
      rw [← String.toList_inj, String.toList_append]
      exact h
  rcases hstop with rfl | rfl
  · rw [String.append_empty, readContainers_of_not_mem hline]
    exact hread rfl (.inl rfl)
  · rw [readContainers_ended hline]
    exact hread (count_dropReturn _) ((dropReturn_cases _).imp And.right id)

/-! ## Line by line -/

/-- **Each line is read by itself**: what stands behind a line feed makes no difference to what stands before it. -/
theorem readContainers_append (before after : String) :
    readContainers (before ++ "\n" ++ after) = readContainers (before ++ "\n") ++ readContainers after := by
  rw [readContainers, lines_append, List.filterMap_append]
  rfl

/-- lines with their line feeds, and what is left behind them -/
def together (lines : List String) (last : String) : String := String.join (lines.map (· ++ "\n")) ++ last

theorem together_cons (line : String) (lines : List String) (last : String) :
    together (line :: lines) last = line ++ "\n" ++ together lines last := by
  rw [together, List.map_cons, String.join_cons, String.append_assoc]
  rfl

theorem readContainers_together (lines : List String) (last : String) : readContainers (together lines last) =
    (lines.flatMap fun line => readContainers (line ++ "\n")) ++ readContainers last := by
  induction lines with
  | nil => simp [together, String.join]
  | cons line lines ih => rw [together_cons, readContainers_append, ih, List.flatMap_cons, List.append_assoc]

/-- **Lines without fields can be left out.** -/
theorem readContainers_filter (hlines : ∀ line ∈ lines, '\n' ∉ line.toList) (last : String) :
    readContainers (together (lines.filter HasFields) last) = readContainers (together lines last) := by
  induction lines with
  | nil => rfl
  | cons line lines ih =>
    obtain ⟨hline, hrest⟩ := List.forall_mem_cons.1 hlines
    rw [together_cons, readContainers_append, ← ih hrest]
    by_cases hfields : HasFields line
    · rw [List.filter_cons_of_pos (by simpa using hfields), together_cons, readContainers_append]
    · rw [List.filter_cons_of_neg (by simpa using hfields), (readContainers_line hline (.inr rfl)).1 hfields,
        List.nil_append]

/-! ## Listings -/

/-- the name and the image are no places for tabs and line breaks; the status has no line feeds, and its end is no part
of a line break -/
structure Listable (r : ContainerRecord) : Prop where
  name : ∀ c ∈ ['\t', '\r', '\n'], c ∉ r.name.toList
  image : ∀ c ∈ ['\t', '\r', '\n'], c ∉ r.image.toList
  status : '\n' ∉ r.status.toList
  ending : r.status.toList.getLast? ≠ some '\r'

/-- one line for each container; lines end in LF or CR LF, and the last one may lack its end -/
inductive Lists : List ContainerRecord → String → Prop
  | nil : Lists [] ""
  | last (r : ContainerRecord) : Lists [r] (row r)
  | line (r : ContainerRecord) {stop rest : String} {rs : List ContainerRecord} (hstop : stop = "\n" ∨ stop = "\r\n")
    (h : Lists rs rest) : Lists (r :: rs) (row r ++ stop ++ rest)

theorem lists_join (rs : List ContainerRecord) : Lists rs (String.join (rs.map fun r => row r ++ "\n")) := by
  induction rs with
  | nil => exact .nil
  | cons r rs ih =>
    rw [List.map_cons, String.join_cons]
    exact .line r (.inl rfl) ih

theorem Listable.tabbed (h : Listable r) : Tabbed r := ⟨h.name _ (by simp), h.image _ (by simp)⟩

theorem Listable.newline_not_mem (h : Listable r) : '\n' ∉ (row r).toList := by
  rw [toList_row]
  simp [h.name '\n' (by simp), h.image '\n' (by simp), h.status]

/-- a row ends like its status, or in a tab -/
theorem getLast?_row (r : ContainerRecord) : (row r).toList.getLast? = some (r.status.toList.getLast?.getD '\t') := by
  rw [toList_row, List.getLast?_append_cons, ← List.cons_append, List.getLast?_append_cons, List.getLast?_cons]

theorem Listable.dropReturn_row (h : Listable r) : dropReturn (row r).toList = (row r).toList := by
  rcases dropReturn_cases (row r).toList with ⟨-, hsame⟩ | hdropped
  · exact hsame
  · have hlast : (row r).toList.getLast? = some '\r' := by rw [← hdropped, List.getLast?_concat]
    rw [getLast?_row, Option.some.injEq] at hlast
    cases hstatus : r.status.toList.getLast? with
    | none =>
      rw [hstatus] at hlast
      exact absurd hlast (by decide)
    | some c =>
      rw [hstatus] at hlast
      exact absurd (hstatus.trans (congrArg some hlast)) h.ending

theorem readContainers_row (h : Listable r) : readContainers (row r) = [r] := by
  rw [readContainers_of_not_mem h.newline_not_mem, readContainer_eq_some_iff.2 ⟨rfl, h.tabbed⟩]
  rfl

theorem append_returned (s : String) : s ++ "\r\n" = s ++ "\r" ++ "\n" := by
  rw [String.append_assoc]
  rfl

theorem readContainers_row_ended (h : Listable r) (hstop : stop = "\n" ∨ stop = "\r\n") :
    readContainers (row r ++ stop) = [r] := by
  have hread : readContainer (row r).toList = some r := readContainer_eq_some_iff.2 ⟨rfl, h.tabbed⟩
  rcases hstop with rfl | rfl
  · rw [readContainers_ended h.newline_not_mem, h.dropReturn_row, hread]
    rfl
  · have hreturn : (row r ++ "\r").toList = (row r).toList ++ ['\r'] := String.toList_append
    have hline : '\n' ∉ (row r ++ "\r").toList := not_mem_append_iff.2 ⟨h.newline_not_mem, by decide⟩
    rw [append_returned, readContainers_ended hline, hreturn, dropReturn_concat, hread]
    rfl

/-- **What is listed is read back.** -/
theorem readContainers_of_lists {text : String} (h : Lists rs text) (hrs : ∀ r ∈ rs, Listable r) :
    readContainers text = rs := by
  induction h with
  | nil => rfl
  | last r => exact readContainers_row (hrs r (List.mem_singleton_self r))
  | @line r stop rest rs hstop _ ih =>
    obtain ⟨hr, hrest⟩ := List.forall_mem_cons.1 hrs
    have hsplit : ∃ before, row r ++ stop = before ++ "\n" := by
      rcases hstop with rfl | rfl
      · exact ⟨_, rfl⟩
      · exact ⟨_, append_returned _⟩
    obtain ⟨before, hbefore⟩ := hsplit
    rw [hbefore, readContainers_append, ← hbefore, readContainers_row_ended hr hstop, ih hrest]
    rfl

/-- **Listings are read line by line.**
- Containers that are listed one a line are read back, whether the lines end in LF or CR LF and the last one has its
  end.
- Every text is made of lines. Its containers are those of the single lines, one after the other, and lines without two
  tabs can be left out of it.
- Such a line gives nothing by itself, and every other one gives one container: the fields between its tabs, the last of
  which is all that is behind the second one, up to a carriage return at the end of the line. -/
theorem listings_are_read_line_by_line :
    (∀ rs, (∀ r ∈ rs, Listable r) → readContainers (String.join (rs.map fun r => row r ++ "\n")) = rs ∧
      ∀ text, Lists rs text → readContainers text = rs) ∧
    (∀ text, ∃ lines last, (∀ line ∈ lines, '\n' ∉ line.toList) ∧ '\n' ∉ last.toList ∧ text = together lines last) ∧
    (∀ lines last, (∀ line ∈ lines, '\n' ∉ line.toList) →
      readContainers (together lines last) = (lines.flatMap fun line => readContainers (line ++ "\n")) ++
      readContainers last ∧
      readContainers (together (lines.filter HasFields) last) = readContainers (together lines last)) ∧
    ∀ line stop, '\n' ∉ line.toList → stop = "" ∨ stop = "\n" →
      (¬ HasFields line → readContainers (line ++ stop) = []) ∧
      (HasFields line → ∃ r, readContainers (line ++ stop) = [r] ∧ Tabbed r ∧
        (row r = line ∨ row r ++ "\r" = line)) := by
  refine ⟨fun rs hrs => ⟨?_, fun text h => readContainers_of_lists h hrs⟩, exists_lines, fun lines last hlines => ?_,
    fun line stop => readContainers_line⟩
  · exact readContainers_of_lists (lists_join rs) hrs
  · exact ⟨readContainers_together lines last, readContainers_filter hlines last⟩

/-- a container with a tab in its status, and one without an image -/
def shopContainersListed : List ContainerRecord :=
  [⟨"web", "todo-web", "Up 3 minutes\t(healthy)"⟩, ⟨"store", "", "Exited (0)"⟩]

/-- a line that is no record does no harm to them, nor does it matter how their lines end -/
theorem shop_containers_are_read :
    readContainers "web\ttodo-web\tUp 3 minutes\t(healthy)\r\nstore\t\tExited (0)" = shopContainersListed ∧
    readContainers "web\ttodo-web\tUp 3 minutes\t(healthy)\r\nWARNING:\tno swap\nstore\t\tExited (0)" =
      shopContainersListed := by
  obtain ⟨hlisted, -, htogether, -⟩ := listings_are_read_line_by_line
  have hlistable : ∀ r ∈ shopContainersListed, Listable r := by
    refine List.forall_mem_cons.2 ⟨?_, List.forall_mem_singleton.2 ?_⟩ <;> constructor <;> simp
  have hlists : Lists shopContainersListed "web\ttodo-web\tUp 3 minutes\t(healthy)\r\nstore\t\tExited (0)" :=
    .line _ (.inr rfl) (.last _)
  have hread := (hlisted _ hlistable).2 _ hlists
  obtain ⟨-, hwarned⟩ := htogether
    ["web\ttodo-web\tUp 3 minutes\t(healthy)\r", "WARNING:\tno swap"] "store\t\tExited (0)" (by decide +kernel)
  exact ⟨hread, hwarned.symm.trans hread⟩

end Fleet.Docker
