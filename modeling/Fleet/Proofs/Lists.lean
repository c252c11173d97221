/-
Lists that are cut at a member, and members in order.

- `cut_append`: a cut of two lists, one after the other, is a cut of the first or of the second.
- `cut_behind`, `front_unique`, `cut_unique`: where a cut is, if the member does not stand in front of it.
- `cut_between_iff`: what does not hold the member is found on one side of the cut.
- `exists_first_not`: a list is cut at the first member without a property.
- `mem_of_pair_sublist`, `pair_sublist_of_mem`: the pairs that stand in order in a list without repetition.
-/
import Mathlib.Data.List.Basic

namespace Fleet

variable {α : Type} {a b : α} {l l' xs ys before after : List α}

/-! ## Cuts -/

/-- a member of two lists, one after the other, is a member of the first or of the second -/
theorem cut_append (h : xs ++ ys = before ++ a :: after) :
    (∃ more, xs = before ++ a :: more ∧ after = more ++ ys) ∨
      ∃ more, before = xs ++ more ∧ ys = more ++ a :: after := by
  rcases List.append_eq_append_iff.1 h with ⟨more, hbefore, hys⟩ | ⟨more, hxs, hrest⟩
  · exact .inr ⟨more, hbefore, hys⟩
  · cases more with
    | nil => exact .inr ⟨[], by simp [hxs], by simpa using hrest.symm⟩
    | cons x more =>
      obtain ⟨rfl, hafter⟩ := List.cons.inj hrest
      exact .inl ⟨more, hxs, hafter⟩

/-- the cut is behind a list that does not hold the member -/
theorem cut_behind (xs : List α) (h : xs ++ ys = before ++ a :: after) (ha : a ∉ xs) : ∃ more, ys = more ++ a :: after := by
  rcases cut_append h with ⟨more, rfl, -⟩ | ⟨more, -, hys⟩
  · exact absurd (List.mem_append_right before List.mem_cons_self) ha
  · exact ⟨more, hys⟩

/-- what stands in front of a cut ends there, if each of two members stands in neither front -/
theorem front_unique (ha : b ∉ before) (hb : a ∉ l) (h : before ++ a :: after = l ++ b :: l') : before = l := by
  rcases cut_append h with ⟨more, rfl, -⟩ | ⟨more, rfl, hrest⟩
  · exact absurd (List.mem_append_right l List.mem_cons_self) ha
  · cases more with
    | nil => exact (List.append_nil before).symm
    | cons x more =>
      obtain ⟨rfl, -⟩ := List.cons.inj hrest
      exact absurd (List.mem_append_right before List.mem_cons_self) hb

/-- a list is cut at the first of its members in one place only -/
theorem cut_unique (hbefore : a ∉ before) (hl : a ∉ l) (h : before ++ a :: after = l ++ a :: l') :
    before = l ∧ after = l' := by
  obtain rfl := front_unique hbefore hl h
  exact ⟨rfl, (List.cons.inj (List.append_cancel_left h)).2⟩

/-- what does not hold the member of a cut stands in front of it or behind it -/
theorem cut_between_iff (ha : a ∉ l) : xs ++ a :: ys = before ++ l ++ after ↔
    (∃ behind, xs = before ++ l ++ behind ∧ after = behind ++ a :: ys) ∨
      ∃ front, ys = front ++ l ++ after ∧ before = xs ++ a :: front := by
  constructor
  · intro h
    rcases cut_append h.symm with ⟨more, hfront, rfl⟩ | ⟨behind, hxs, hafter⟩
    · rcases cut_append hfront with ⟨front, rfl, rfl⟩ | ⟨more, -, rfl⟩
      · exact .inr ⟨front, rfl, rfl⟩
      · exact absurd (List.mem_append_right more List.mem_cons_self) ha
    · exact .inl ⟨behind, hxs, hafter⟩
  · rintro (⟨behind, rfl, rfl⟩ | ⟨front, rfl, rfl⟩) <;> simp

theorem exists_first_not {P : α → Prop} (h : ¬ ∀ a ∈ l, P a) :
    ∃ before a after, l = before ++ a :: after ∧ ¬ P a ∧ ∀ b ∈ before, P b := by
  induction l with
  | nil => exact absurd (by simp) h
  | cons head l ih =>
    by_cases hhead : P head
    · obtain ⟨before, a, after, rfl, ha, hbefore⟩ := ih fun hl => h (List.forall_mem_cons.2 ⟨hhead, hl⟩)
      exact ⟨head :: before, a, after, rfl, ha, List.forall_mem_cons.2 ⟨hhead, hbefore⟩⟩
    · exact ⟨[], head, l, rfl, hhead, by simp⟩

/-! ## Pairs in order -/

/-- in a list without repetition, what comes before an item stands in front of it -/
theorem mem_of_pair_sublist (hnodup : (before ++ b :: after).Nodup) (h : [a, b].Sublist (before ++ b :: after)) :
    a ∈ before := by
  induction before with
  | nil =>
    have hb : b ∉ after := (List.nodup_cons.1 hnodup).1
    rcases List.sublist_cons_iff.1 h with hin | ⟨_, heq, hin⟩
    · exact absurd (hin.subset (List.mem_cons_of_mem a List.mem_cons_self)) hb
    · cases heq
      exact absurd (hin.subset List.mem_cons_self) hb
  | cons c before ih =>
    rcases List.sublist_cons_iff.1 h with hin | ⟨_, heq, _⟩
    · exact List.mem_cons_of_mem c (ih (List.nodup_cons.1 hnodup).2 hin)
    · cases heq
      exact List.mem_cons_self

theorem pair_sublist_of_mem (h : a ∈ before) : [a, b].Sublist (before ++ b :: after) :=
  (List.singleton_sublist.2 h).append (List.singleton_sublist.2 List.mem_cons_self)

theorem idxOf_lt_of_pair_sublist [DecidableEq α] (hnodup : l.Nodup) (h : [a, b].Sublist l) :
    l.idxOf a < l.idxOf b := by
  obtain ⟨before, after, rfl⟩ := List.append_of_mem (h.subset (by simp : b ∈ [a, b]))
  have ha : a ∈ before := mem_of_pair_sublist hnodup h
  have hb : b ∉ before := fun hin => (List.nodup_append.1 hnodup).2.2 b hin b List.mem_cons_self rfl
  rw [List.idxOf_append_of_mem ha, List.idxOf_append_of_notMem hb, List.idxOf_cons_self, Nat.add_zero]
  exact List.idxOf_lt_length_of_mem ha

end Fleet
