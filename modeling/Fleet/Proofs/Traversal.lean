/-
Traversals: a list that is gone through step by step, where a step may fail.

- `bind_eq_ok_iff`, `map_eq_ok_iff`, `map_eq_error_iff`: results of results.
- `mapM_eq_ok_iff`: a traversal succeeds just if every step does, with their results in order.
- `mapM_eq_error_iff`: otherwise the first step that fails is reported (`FirstFails`).
- `exists_related`: of two lists that are related, each member has a partner.
-/
import Mathlib.Data.List.Forall2

namespace Fleet

variable {ε α β : Type} {x : Except ε α} {e : ε} {b : β} {l : List α} {bs : List β} {f : α → Except ε β}

/-! ## Results of results -/

theorem map_eq_ok_iff {g : α → β} : x.map g = .ok b ↔ ∃ a, x = .ok a ∧ g a = b := by
  cases x <;> simp [Except.map]

theorem exists_map_eq_ok_iff {g : α → β} : (∃ b, x.map g = .ok b) ↔ ∃ a, x = .ok a := by
  cases x <;> simp [Except.map]

theorem map_eq_error_iff {g : α → β} : x.map g = .error e ↔ x = .error e := by
  cases x <;> simp [Except.map]

theorem bind_eq_ok_iff : x >>= f = .ok b ↔ ∃ a, x = .ok a ∧ f a = .ok b := by
  cases x <;> simp [Bind.bind, Except.bind]

/-! ## Related lists -/

/-- each member of a list has a partner in a list that is related to it -/
theorem exists_related {R : α → β → Prop} (h : List.Forall₂ R l bs) {a : α} (ha : a ∈ l) : ∃ b ∈ bs, R a b := by
  induction h with
  | nil => cases ha
  | cons hab _ ih =>
    rcases List.mem_cons.1 ha with rfl | ha
    · exact ⟨_, List.mem_cons_self, hab⟩
    · obtain ⟨b, hb, hrelated⟩ := ih ha
      exact ⟨b, List.mem_cons_of_mem _ hb, hrelated⟩

/-- lists whose members are related have the same images, if related members have -/
theorem map_eq_map_of_related {γ : Type} {R : α → β → Prop} {g : α → γ} {g' : β → γ} (h : List.Forall₂ R l bs)
    (hR : ∀ a b, R a b → g a = g' b) : l.map g = bs.map g' := by
  rw [← List.forall₂_eq_eq_eq, List.forall₂_map_left_iff, List.forall₂_map_right_iff]
  exact h.imp hR

/-- somewhere in the list something fails, and what stands before it passes -/
def FirstFails (passes fails : α → Prop) (l : List α) : Prop :=
  ∃ before a after, l = before ++ a :: after ∧ (∀ b ∈ before, passes b) ∧ fails a

variable {passes fails : α → Prop}

theorem not_firstFails_nil : ¬ FirstFails passes fails [] := by
  rintro ⟨before, a, after, hl, _⟩
  simp at hl

theorem firstFails_cons_iff {a : α} :
    FirstFails passes fails (a :: l) ↔ fails a ∨ passes a ∧ FirstFails passes fails l := by
  constructor
  · rintro ⟨before, b, after, hl, hbefore, hb⟩
    cases before with
    | nil =>
      cases hl
      exact .inl hb
    | cons first before =>
      cases hl
      obtain ⟨hfirst, hbefore⟩ := List.forall_mem_cons.1 hbefore
      exact .inr ⟨hfirst, before, b, after, rfl, hbefore, hb⟩
  · rintro (ha | ⟨ha, before, b, after, rfl, hbefore, hb⟩)
    · exact ⟨[], a, l, rfl, by simp, ha⟩
    · exact ⟨a :: before, b, after, rfl, List.forall_mem_cons.2 ⟨ha, hbefore⟩, hb⟩

/-- what fails is one of them -/
theorem FirstFails.exists_mem (h : FirstFails passes fails l) : ∃ a ∈ l, fails a := by
  obtain ⟨before, a, after, rfl, -, ha⟩ := h
  exact ⟨a, by simp, ha⟩

/-! ## Lists that are gone through -/

/-- **A traversal succeeds just if every step does**, with their results in order. -/
theorem mapM_eq_ok_iff : l.mapM f = .ok bs ↔ List.Forall₂ (fun a b => f a = .ok b) l bs := by
  induction l generalizing bs with
  | nil => simp [pure, Except.pure, eq_comm]
  | cons a l ih =>
    rw [List.mapM_cons, bind_eq_ok_iff, List.forall₂_cons_left_iff]
    refine exists_congr fun b => ?_
    simp [bind_eq_ok_iff, ih, pure, Except.pure, eq_comm (a := bs)]

/-- **Otherwise the first step that fails is reported.** -/
theorem mapM_eq_error_iff :
    l.mapM f = .error e ↔ FirstFails (fun a => ∃ b, f a = .ok b) (fun a => f a = .error e) l := by
  induction l with
  | nil => exact iff_of_false nofun not_firstFails_nil
  | cons a l ih =>
    rw [List.mapM_cons, firstFails_cons_iff, ← ih]
    cases f a with
    | error e' => simp [Bind.bind, Except.bind]
    | ok b => cases l.mapM f <;> simp [Bind.bind, Except.bind, pure, Except.pure]

/-- steps that all succeed make a traversal that does -/
theorem exists_mapM (h : ∀ a ∈ l, ∃ b, f a = .ok b) : ∃ bs, l.mapM f = .ok bs := by
  cases hl : l.mapM f with
  | ok bs => exact ⟨bs, rfl⟩
  | error e =>
    obtain ⟨a, ha, herror⟩ := (mapM_eq_error_iff.1 hl).exists_mem
    obtain ⟨b, hok⟩ := h a ha
    cases hok.symm.trans herror

/-- what is written item by item is read item by item -/
theorem mapM_map_of_inverse {g : α → β} {k : β → Option α} (h : ∀ a, k (g a) = some a) (l : List α) :
    (l.map g).mapM k = some l := by
  induction l with
  | nil => rfl
  | cons a l ih => simp [h a, ih]

end Fleet
