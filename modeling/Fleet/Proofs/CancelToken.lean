/-
Which tokens are cancelled, told by what was done with them.

What is said of tokens here is said by the operations alone, in terms of the numbers of tokens: which one was made as a
clone or a child of which other one, and on which ones `cancel` was called. Flags do not come into it.
- `step_cases`: all that an operation can do to tokens and flags.
- `raised_run_iff`: the flags that are up are those of the tokens on which `cancel` was called.
- `clones_of_own_eq`: tokens have a flag in common as their own just if they are clones of each other.
- `atOrAbove_of_watched`: the flags that a token watches are those of the tokens at it or above it.
- `isCancelled_iff_called`: so a token is cancelled just if `cancel` was called on it or above it, and so it stays.
-/
import Mathlib.Data.List.Induction
import Mathlib.Logic.Relation
import Fleet.CancelToken

namespace Fleet.CancelToken

variable {ops before after later : List Operation} {op : Operation} {k l m n : Nat} {t u : CancelToken} {f f' : Forest}
  {flags : Flags}

/-! ## Histories -/

/-- the tokens and flags after these operations -/
def run (ops : List Operation) : Forest := ops.foldl Forest.perform {}

/-- how many tokens there are after these operations -/
def count (ops : List Operation) : Nat := (run ops).tokens.length

/-- the operation was performed when there were `n` tokens; if it made one, then number `n` -/
def Performed (ops : List Operation) (n : Nat) (op : Operation) : Prop :=
  ∃ before after, ops = before ++ op :: after ∧ count before = n

/-- `n` was made by itself -/
def IsRoot (ops : List Operation) (n : Nat) : Prop := Performed ops n .new

/-- `n` was made as a child of `m` -/
def IsChild (ops : List Operation) (n m : Nat) : Prop := Performed ops n (.child m) ∧ m < n

/-- `n` was made as a clone of `m` -/
def IsClone (ops : List Operation) (n m : Nat) : Prop := Performed ops n (.clone m) ∧ m < n

/-- `cancel` was called on `m`, which was there -/
def Called (ops : List Operation) (m : Nat) : Prop := ∃ n, Performed ops n (.cancel m) ∧ m < n

/-- both are one token, up to cloning -/
def Clones (ops : List Operation) : Nat → Nat → Prop := Relation.EqvGen (IsClone ops)

/-- `m` is the token `n` or one of its ancestors, or a clone of one of these -/
inductive AtOrAbove (ops : List Operation) (n : Nat) : Nat → Prop
  | clone {m : Nat} (hm : Clones ops n m) : AtOrAbove ops n m
  | parent {c p m : Nat} (hc : AtOrAbove ops n c) (hp : IsChild ops c p) (hm : Clones ops p m) : AtOrAbove ops n m

/-- `n` is the parent of a child, one of its siblings, or a root, or a clone of one of these -/
inductive Aside (ops : List Operation) (child n : Nat) : Prop
  | parent {p : Nat} (hp : IsChild ops child p) (hn : Clones ops n p)
  | sibling {p q other : Nat} (hp : IsChild ops child p) (hq : IsChild ops other q) (hpq : Clones ops p q)
    (hother : other ≠ child) (hn : Clones ops n other)
  | root {p r : Nat} (hp : IsChild ops child p) (hr : IsRoot ops r) (hn : Clones ops n r)

theorem run_append (before after : List Operation) : run (before ++ after) = after.foldl Forest.perform (run before) :=
  List.foldl_append

theorem run_concat (ops : List Operation) (op : Operation) : run (ops ++ [op]) = (run ops).perform op :=
  run_append ops [op]

theorem performed_concat_iff {o : Operation} :
    Performed (ops ++ [op]) n o ↔ Performed ops n o ∨ (o = op ∧ count ops = n) := by
  constructor
  · rintro ⟨before, after, hops, rfl⟩
    rcases List.eq_nil_or_concat after with rfl | ⟨after, last, rfl⟩
    · obtain ⟨rfl, hlast⟩ := List.append_inj' hops rfl
      cases hlast
      exact .inr ⟨rfl, rfl⟩
    · rw [List.concat_eq_append, ← List.cons_append, ← List.append_assoc] at hops
      exact .inl ⟨before, after, (List.append_inj' hops rfl).1, rfl⟩
  · rintro (⟨before, after, rfl, rfl⟩ | ⟨rfl, rfl⟩)
    · exact ⟨before, after ++ [op], by simp, rfl⟩
    · exact ⟨ops, [], rfl, rfl⟩

theorem Performed.mono (h : Performed ops n op) (later : List Operation) : Performed (ops ++ later) n op := by
  obtain ⟨before, after, rfl, rfl⟩ := h
  exact ⟨before, after ++ later, by simp, rfl⟩

theorem Called.mono (h : Called ops m) (later : List Operation) : Called (ops ++ later) m := by
  obtain ⟨n, hperformed, hlt⟩ := h
  exact ⟨n, hperformed.mono later, hlt⟩

theorem Clones.mono (h : Clones ops n m) (later : List Operation) : Clones (ops ++ later) n m :=
  Relation.EqvGen.mono (fun _ _ hclone => ⟨hclone.1.mono later, hclone.2⟩) _ _ h

theorem AtOrAbove.mono (h : AtOrAbove ops n m) (later : List Operation) : AtOrAbove (ops ++ later) n m := by
  induction h with
  | clone hm => exact .clone (hm.mono later)
  | parent _ hp hm ih => exact .parent ih ⟨hp.1.mono later, hp.2⟩ (hm.mono later)

theorem AtOrAbove.refl (ops : List Operation) (n : Nat) : AtOrAbove ops n n := .clone (.refl n)

theorem AtOrAbove.behind (h : AtOrAbove ops n m) (hclones : Clones ops m k) : AtOrAbove ops n k := by
  cases h with
  | clone hm => exact .clone (hm.trans _ _ _ hclones)
  | parent hc hp hm => exact .parent hc hp (hm.trans _ _ _ hclones)

theorem AtOrAbove.trans (h : AtOrAbove ops n m) (h' : AtOrAbove ops m k) : AtOrAbove ops n k := by
  induction h' with
  | clone hk => exact h.behind hk
  | parent _ hp hk ih => exact .parent ih hp hk

/-! ## One operation -/

/-- the flags that a token watches, its own last -/
def watched (t : CancelToken) : List Nat := t.inherited ++ [t.own]

theorem isCancelled_iff : t.isCancelled flags = true ↔ ∃ k ∈ t.watched, flags[k]? = some true := by
  have hraised (k : Nat) : flags.getD k false = true ↔ flags[k]? = some true := by
    rw [List.getD_eq_getElem?_getD]
    cases flags[k]? <;> simp
  simp only [← hraised]
  exact List.any_eq_true

theorem own_mem_watched (t : CancelToken) : t.own ∈ t.watched := List.mem_append_right _ (List.mem_singleton_self _)

/-- what an operation does, in full -/
inductive Step (f : Forest) : Operation → Forest → Prop
  | new : Step f .new ⟨f.tokens ++ [⟨[], f.flags.length⟩], f.flags ++ [false]⟩
  | child {m : Nat} {t : CancelToken} (ht : f.tokens[m]? = some t) :
    Step f (.child m) ⟨f.tokens ++ [⟨t.watched, f.flags.length⟩], f.flags ++ [false]⟩
  | clone {m : Nat} {t : CancelToken} (ht : f.tokens[m]? = some t) : Step f (.clone m) ⟨f.tokens ++ [t], f.flags⟩
  | cancel {m : Nat} {t : CancelToken} (ht : f.tokens[m]? = some t) :
    Step f (.cancel m) ⟨f.tokens, f.flags.set t.own true⟩
  | missing {m : Nat} {op : Operation} (hm : f.tokens[m]? = none)
    (hop : op = .child m ∨ op = .clone m ∨ op = .cancel m) : Step f op f

theorem step_cases (f : Forest) (op : Operation) : Step f op (f.perform op) := by
  cases op with
  | new => exact .new
  | child m =>
    cases ht : f.tokens[m]? with
    | none => simpa only [Forest.perform, ht] using Step.missing ht (.inl rfl)
    | some t =>
      simp only [Forest.perform, ht]
      exact .child ht
  | clone m =>
    cases ht : f.tokens[m]? with
    | none => simpa only [Forest.perform, ht] using Step.missing ht (.inr (.inl rfl))
    | some t =>
      simp only [Forest.perform, ht]
      exact .clone ht
  | cancel m =>
    cases ht : f.tokens[m]? with
    | none => simpa only [Forest.perform, ht] using Step.missing ht (.inr (.inr rfl))
    | some t =>
      simp only [Forest.perform, ht]
      exact .cancel ht

theorem Step.tokens_isPrefix (h : Step f op f') : f.tokens <+: f'.tokens := by
  cases h with
  | new | child | clone => exact List.prefix_append _ _
  | cancel | missing => exact List.prefix_refl _

/-- each token's own flag is there -/
def Furnished (f : Forest) : Prop := ∀ t ∈ f.tokens, t.own < f.flags.length

theorem Step.furnished (h : Step f op f') (hf : Furnished f) : Furnished f' := by
  have hgrown : ∀ t ∈ f.tokens, t.own < (f.flags ++ [false]).length := fun t ht =>
    Nat.lt_of_lt_of_le (hf t ht) (by simp)
  cases h with
  | new | child => exact List.forall_mem_append.2 ⟨hgrown, List.forall_mem_singleton.2 (by simp)⟩
  | clone ht => exact List.forall_mem_append.2 ⟨hf, List.forall_mem_singleton.2 (hf _ (List.mem_of_getElem? ht))⟩
  | cancel => simpa [Furnished] using hf
  | missing => exact hf

theorem raised_concat_false_iff : (flags ++ [false])[k]? = some true ↔ flags[k]? = some true := by
  rw [List.getElem?_append]
  split
  · rfl
  · rename_i hlast
    rw [List.getElem?_eq_none (Nat.le_of_not_lt hlast)]
    cases k - flags.length <;> simp

/-- a flag is raised by `cancel` alone, on a token that has it as its own -/
theorem Step.raised_iff (h : Step f op f') (hf : Furnished f) : f'.flags[k]? = some true ↔
    f.flags[k]? = some true ∨ ∃ m t, op = .cancel m ∧ f.tokens[m]? = some t ∧ t.own = k := by
  cases h with
  | new => simp [raised_concat_false_iff]
  | child => simp [raised_concat_false_iff]
  | clone => simp
  | @cancel m t ht =>
    have hlt : t.own < f.flags.length := hf t (List.mem_of_getElem? ht)
    have hown : (∃ m' t', Operation.cancel m = .cancel m' ∧ f.tokens[m']? = some t' ∧ t'.own = k) ↔ t.own = k := by
      constructor
      · rintro ⟨_, t', heq, ht', hk⟩
        cases heq
        cases ht.symm.trans ht'
        exact hk
      · exact fun hk => ⟨m, t, rfl, ht, hk⟩
    rw [hown, List.getElem?_set]
    by_cases hk : t.own = k
    · simp [hk, hk ▸ hlt]
    · simp [hk]
  | missing hm hop =>
    refine (or_iff_left ?_).symm
    rintro ⟨m', t, rfl, ht, _⟩
    simp only [reduceCtorEq, Operation.cancel.injEq, false_or] at hop
    rw [hop, hm] at ht
    cases ht

/-! ## Runs -/

theorem tokens_run_isPrefix (before after : List Operation) :
    (run before).tokens <+: (run (before ++ after)).tokens := by
  induction after using List.reverseRecOn with
  | nil => exact (List.append_nil before).symm ▸ List.prefix_refl _
  | append_singleton after op ih =>
    rw [← List.append_assoc, run_concat]
    exact ih.trans (step_cases _ op).tokens_isPrefix

theorem getElem?_run_append (h : (run ops).tokens[n]? = some t) (later : List Operation) :
    (run (ops ++ later)).tokens[n]? = some t := by
  obtain ⟨more, hmore⟩ := tokens_run_isPrefix ops later
  rw [← hmore, List.getElem?_append_left (List.getElem?_eq_some_iff.1 h).1, h]

theorem exists_token (h : n < count ops) : ∃ t, (run ops).tokens[n]? = some t := ⟨_, List.getElem?_eq_getElem h⟩

theorem furnished_run (ops : List Operation) : Furnished (run ops) := by
  induction ops using List.reverseRecOn with
  | nil => exact List.forall_mem_nil _
  | append_singleton ops op ih =>
    rw [run_concat]
    exact (step_cases _ op).furnished ih

theorem called_concat_iff : Called (ops ++ [op]) m ↔ Called ops m ∨ (op = .cancel m ∧ m < count ops) := by
  simp only [Called, performed_concat_iff]
  constructor
  · rintro ⟨n, hperformed | ⟨rfl, rfl⟩, hlt⟩
    · exact .inl ⟨n, hperformed, hlt⟩
    · exact .inr ⟨rfl, hlt⟩
  · rintro (⟨n, hperformed, hlt⟩ | ⟨rfl, hlt⟩)
    · exact ⟨n, .inl hperformed, hlt⟩
    · exact ⟨_, .inr ⟨rfl, rfl⟩, hlt⟩

theorem Called.exists_token (h : Called ops m) : ∃ t, (run ops).tokens[m]? = some t := by
  obtain ⟨_, ⟨before, after, rfl, rfl⟩, hlt⟩ := h
  obtain ⟨t, ht⟩ := CancelToken.exists_token hlt
  exact ⟨t, getElem?_run_append ht _⟩

/-- **The flags that are up** are the own flags of the tokens on which `cancel` was called. -/
theorem raised_run_iff : (run ops).flags[k]? = some true ↔
    ∃ m t, Called ops m ∧ (run ops).tokens[m]? = some t ∧ t.own = k := by
  induction ops using List.reverseRecOn with
  | nil =>
    refine iff_of_false (by simp [run]) ?_
    rintro ⟨m, _, _, ht, _⟩
    simp [run] at ht
  | append_singleton ops op ih =>
    have hstep := (step_cases (run ops) op).raised_iff (k := k) (furnished_run ops)
    rw [run_concat, hstep, ih, ← run_concat]
    constructor
    · rintro (⟨m, t, hcalled, ht, hk⟩ | ⟨m, t, rfl, ht, hk⟩)
      · exact ⟨m, t, hcalled.mono _, getElem?_run_append ht _, hk⟩
      · exact ⟨m, t, called_concat_iff.2 (.inr ⟨rfl, (List.getElem?_eq_some_iff.1 ht).1⟩), getElem?_run_append ht _, hk⟩
    · rintro ⟨m, t, hcalled, ht, hk⟩
      rcases called_concat_iff.1 hcalled with hcalled | ⟨rfl, hlt⟩
      · obtain ⟨u, hu⟩ := hcalled.exists_token
        cases ht.symm.trans (getElem?_run_append hu _)
        exact .inl ⟨m, t, hcalled, hu, hk⟩
      · obtain ⟨u, hu⟩ := exists_token hlt
        cases ht.symm.trans (getElem?_run_append hu _)
        exact .inr ⟨m, t, rfl, hu, hk⟩

/-- what a trace of operations shows are the answers of all tokens after each of them -/
theorem getElem?_trace (f : Forest) (h : k < ops.length) :
    (f.trace ops)[k]? = some ((ops.take (k + 1)).foldl Forest.perform f).cancelled := by
  induction ops generalizing f k with
  | nil => exact absurd h (Nat.not_lt_zero k)
  | cons op ops ih =>
    cases k with
    | zero => rfl
    | succ k => exact ih (f.perform op) (Nat.lt_of_succ_lt_succ h)

/-! ## How tokens are made -/

/-- the own flag of token `n` is newer than those of all tokens before it -/
def NewFlag (ops : List Operation) (n : Nat) (t : CancelToken) : Prop :=
  ∀ m u, m < n → (run ops).tokens[m]? = some u → u.own < t.own

theorem getElem?_made (h : ((run before).perform op).tokens = (run before).tokens ++ [t]) (after : List Operation) :
    (run (before ++ op :: after)).tokens[count before]? = some t := by
  have hmade : (run (before ++ [op])).tokens[count before]? = some t := by
    rw [run_concat, h, count, List.getElem?_concat_length]
  simpa using getElem?_run_append hmade after

theorem newFlag_made (before after : List Operation) (inherited : List Nat) :
    NewFlag (before ++ after) (count before) ⟨inherited, (run before).flags.length⟩ := by
  intro m u hlt hu
  obtain ⟨u', hu'⟩ := exists_token hlt
  cases hu.symm.trans (getElem?_run_append hu' after)
  exact furnished_run before u (List.mem_of_getElem? hu')

theorem IsRoot.token (h : IsRoot ops n) :
    ∃ t, (run ops).tokens[n]? = some t ∧ t.inherited = [] ∧ NewFlag ops n t := by
  obtain ⟨before, after, rfl, rfl⟩ := h
  exact ⟨_, getElem?_made rfl after, rfl, newFlag_made before _ []⟩

theorem IsChild.token (h : IsChild ops n m) : ∃ parent t, (run ops).tokens[m]? = some parent ∧
    (run ops).tokens[n]? = some t ∧ t.inherited = parent.watched ∧ NewFlag ops n t := by
  obtain ⟨⟨before, after, rfl, rfl⟩, hlt⟩ := h
  obtain ⟨parent, hparent⟩ := exists_token hlt
  refine ⟨parent, ⟨parent.watched, (run before).flags.length⟩, getElem?_run_append hparent _,
    getElem?_made ?_ after, rfl, newFlag_made before _ _⟩
  simp only [Forest.perform, hparent]
  rfl

theorem IsClone.token_eq (h : IsClone ops n m) : (run ops).tokens[n]? = (run ops).tokens[m]? := by
  obtain ⟨⟨before, after, rfl, rfl⟩, hlt⟩ := h
  obtain ⟨t, ht⟩ := exists_token hlt
  rw [getElem?_run_append ht, getElem?_made ?_ after]
  simp only [Forest.perform, ht]
  rfl

theorem Clones.token_eq (h : Clones ops n m) : (run ops).tokens[n]? = (run ops).tokens[m]? := by
  induction h with
  | rel _ _ hclone => exact hclone.token_eq
  | refl => rfl
  | symm _ _ _ ih => exact ih.symm
  | trans _ _ _ _ _ ih ih' => exact ih.trans ih'

/-- the token was made with a flag of its own -/
def IsFresh (ops : List Operation) (n : Nat) : Prop := IsRoot ops n ∨ ∃ m, IsChild ops n m

theorem maker_cases (h : n < count ops) : IsFresh ops n ∨ ∃ m, IsClone ops n m := by
  induction ops using List.reverseRecOn with
  | nil => exact absurd h (Nat.not_lt_zero n)
  | append_singleton ops op ih =>
    have hold (hlt : n < count ops) : IsFresh (ops ++ [op]) n ∨ ∃ m, IsClone (ops ++ [op]) n m := by
      rcases ih hlt with (hroot | ⟨m, hchild⟩) | ⟨m, hclone⟩
      · exact .inl (.inl (hroot.mono _))
      · exact .inl (.inr ⟨m, hchild.1.mono _, hchild.2⟩)
      · exact .inr ⟨m, hclone.1.mono _, hclone.2⟩
    have hnew : Performed (ops ++ [op]) (count ops) op := ⟨ops, [], rfl, rfl⟩
    have hlast (f : Forest) {t : CancelToken} (hf : f.tokens = (run ops).tokens ++ [t]) (hlt : n < f.tokens.length) :
        n < count ops ∨ n = count ops := by
      rw [hf, List.length_append, List.length_singleton] at hlt
      exact Nat.lt_or_eq_of_le (Nat.le_of_lt_succ hlt)
    rw [count, run_concat] at h
    have hstep := step_cases (run ops) op
    generalize (run ops).perform op = f' at hstep h
    cases hstep with
    | new =>
      rcases hlast _ rfl h with hlt | rfl
      · exact hold hlt
      · exact .inl (.inl hnew)
    | @child m _ ht =>
      rcases hlast _ rfl h with hlt | rfl
      · exact hold hlt
      · exact .inl (.inr ⟨m, hnew, (List.getElem?_eq_some_iff.1 ht).1⟩)
    | @clone m _ ht =>
      rcases hlast _ rfl h with hlt | rfl
      · exact hold hlt
      · exact .inr ⟨m, hnew, (List.getElem?_eq_some_iff.1 ht).1⟩
    | cancel | missing => exact hold h

/-! ## Whose flags a token watches -/

theorem IsFresh.token (h : IsFresh ops n) : ∃ t, (run ops).tokens[n]? = some t ∧ NewFlag ops n t := by
  rcases h with hroot | ⟨m, hchild⟩
  · obtain ⟨t, ht, -, hnew⟩ := hroot.token
    exact ⟨t, ht, hnew⟩
  · obtain ⟨_, t, -, ht, -, hnew⟩ := hchild.token
    exact ⟨t, ht, hnew⟩

/-- two tokens were not made with the same flag -/
theorem IsFresh.eq_of_own_eq (hn : IsFresh ops n) (hm : IsFresh ops m) (ht : (run ops).tokens[n]? = some t)
    (hu : (run ops).tokens[m]? = some u) (hown : t.own = u.own) : n = m := by
  obtain ⟨t', ht', hnewn⟩ := hn.token
  obtain ⟨u', hu', hnewm⟩ := hm.token
  cases ht.symm.trans ht'
  cases hu.symm.trans hu'
  rcases Nat.lt_trichotomy n m with hlt | heq | hlt
  · exact absurd hown (Nat.ne_of_lt (hnewm n t hlt ht))
  · exact heq
  · exact absurd hown.symm (Nat.ne_of_lt (hnewn m u hlt hu))

theorem exists_fresh (h : n < count ops) : ∃ r, Clones ops n r ∧ IsFresh ops r := by
  induction n using Nat.strongRecOn with
  | _ n ih =>
    rcases maker_cases h with hfresh | ⟨m, hclone⟩
    · exact ⟨n, .refl n, hfresh⟩
    · obtain ⟨r, hclones, hfresh⟩ := ih m hclone.2 (Nat.lt_trans hclone.2 h)
      exact ⟨r, .trans _ _ _ (.rel _ _ hclone) hclones, hfresh⟩

/-- **Tokens with one own flag are clones.** -/
theorem clones_of_own_eq (ht : (run ops).tokens[n]? = some t) (hu : (run ops).tokens[m]? = some u)
    (hown : t.own = u.own) : Clones ops n m := by
  obtain ⟨r, hr, hfresh⟩ := exists_fresh (List.getElem?_eq_some_iff.1 ht).1
  obtain ⟨q, hq, hfresh'⟩ := exists_fresh (List.getElem?_eq_some_iff.1 hu).1
  obtain rfl := hfresh.eq_of_own_eq hfresh' (hr.token_eq ▸ ht) (hq.token_eq ▸ hu) hown
  exact hr.trans _ _ _ (hq.symm _ _)

/-- a token watches all that the tokens above it watch -/
theorem AtOrAbove.watched_isPrefix (h : AtOrAbove ops n m) (hu : (run ops).tokens[m]? = some u) :
    ∃ t, (run ops).tokens[n]? = some t ∧ u.watched <+: t.watched := by
  induction h generalizing u with
  | clone hm => exact ⟨u, hm.token_eq.trans hu, List.prefix_refl _⟩
  | parent _ hp hm ih =>
    obtain ⟨parent, child, hparent, hchild, hinherited, -⟩ := hp.token
    cases (hm.token_eq.symm.trans hparent).symm.trans hu
    obtain ⟨t, ht, hprefix⟩ := ih hchild
    refine ⟨t, ht, List.IsPrefix.trans ?_ hprefix⟩
    rw [← hinherited]
    exact List.prefix_append _ _

/-- **The flags that a token watches** are the own flags of the tokens at it or above it. -/
theorem atOrAbove_of_watched (ht : (run ops).tokens[n]? = some t) (hk : k ∈ t.watched) :
    ∃ m u, AtOrAbove ops n m ∧ (run ops).tokens[m]? = some u ∧ u.own = k := by
  induction n using Nat.strongRecOn generalizing t with
  | _ n ih =>
    have hitself (hown : k = t.own) : ∃ m u, AtOrAbove ops n m ∧ (run ops).tokens[m]? = some u ∧ u.own = k :=
      ⟨n, t, .refl ops n, ht, hown.symm⟩
    rcases maker_cases (List.getElem?_eq_some_iff.1 ht).1 with (hroot | ⟨p, hchild⟩) | ⟨m, hclone⟩
    · obtain ⟨t', ht', hinherited, -⟩ := hroot.token
      cases ht.symm.trans ht'
      rw [watched, hinherited, List.nil_append, List.mem_singleton] at hk
      exact hitself hk
    · obtain ⟨parent, t', hparent, ht', hinherited, -⟩ := hchild.token
      cases ht.symm.trans ht'
      rw [watched, hinherited, List.mem_append, List.mem_singleton] at hk
      rcases hk with hk | hk
      · obtain ⟨m, u, habove, hu, hown⟩ := ih p hchild.2 hparent hk
        exact ⟨m, u, (AtOrAbove.parent (.refl ops n) hchild (.refl p)).trans habove, hu, hown⟩
      · exact hitself hk
    · obtain ⟨k', u, habove, hu, hown⟩ := ih m hclone.2 (hclone.token_eq ▸ ht) hk
      exact ⟨k', u, (AtOrAbove.clone (.rel _ _ hclone)).trans habove, hu, hown⟩

/-! ## Cancelled tokens -/

theorem isCancelled_run_iff (ht : (run ops).tokens[n]? = some t) :
    t.isCancelled (run ops).flags = true ↔ ∃ m, AtOrAbove ops n m ∧ Called ops m := by
  rw [isCancelled_iff]
  simp only [raised_run_iff]
  constructor
  · rintro ⟨k, hk, m, u, hcalled, hu, hown⟩
    obtain ⟨m', u', habove, hu', hown'⟩ := atOrAbove_of_watched ht hk
    exact ⟨m, habove.behind (clones_of_own_eq hu' hu (hown'.trans hown.symm)), hcalled⟩
  · rintro ⟨m, habove, hcalled⟩
    obtain ⟨u, hu⟩ := hcalled.exists_token
    obtain ⟨t', ht', hprefix⟩ := habove.watched_isPrefix hu
    cases ht.symm.trans ht'
    exact ⟨u.own, hprefix.subset u.own_mem_watched, m, u, hcalled, hu, rfl⟩

/-- after each operation, a trace shows those tokens as cancelled on which or above which `cancel` was called by then -/
theorem trace_shows_iff (hk : k < ops.length) :
    (∃ shown, (Forest.trace {} ops)[k]? = some shown ∧ shown[n]? = some true) ↔
      ∃ m, AtOrAbove (ops.take (k + 1)) n m ∧ Called (ops.take (k + 1)) m := by
  have hshown : (Forest.trace {} ops)[k]? = some (run (ops.take (k + 1))).cancelled := getElem?_trace {} hk
  rw [hshown]
  simp only [Option.some.injEq, exists_eq_left', Forest.cancelled, List.getElem?_map, Option.map_eq_some_iff]
  constructor
  · rintro ⟨t, ht, hcancelled⟩
    exact (isCancelled_run_iff ht).1 hcancelled
  · rintro ⟨m, habove, hcalled⟩
    obtain ⟨u, hu⟩ := hcalled.exists_token
    obtain ⟨t, ht, -⟩ := habove.watched_isPrefix hu
    exact ⟨t, ht, (isCancelled_run_iff ht).2 ⟨m, habove, hcalled⟩⟩

/-- `cancel` makes no difference to a token if it is called neither on it nor above it -/
theorem isCancelled_cancel (ht : (run ops).tokens[n]? = some t) (hm : ¬ AtOrAbove ops n m) :
    t.isCancelled (run (ops ++ [.cancel m])).flags = t.isCancelled (run ops).flags := by
  rw [Bool.eq_iff_iff, isCancelled_iff, isCancelled_iff, run_concat]
  refine exists_congr fun k => and_congr_right fun hk => ?_
  rw [(step_cases _ _).raised_iff (furnished_run ops)]
  refine or_iff_left ?_
  rintro ⟨m', u, heq, hu, hown⟩
  cases heq
  obtain ⟨m', u', habove, hu', hown'⟩ := atOrAbove_of_watched ht hk
  exact hm (habove.behind (clones_of_own_eq hu' hu (hown'.trans hown.symm)))

theorem Aside.not_atOrAbove {child : Nat} (h : Aside ops child n) : ¬ AtOrAbove ops n child := by
  intro habove
  cases h with
  | parent hp hn =>
    obtain ⟨parent, c, hparent, hc, hinherited, -⟩ := hp.token
    obtain ⟨t, ht, hprefix⟩ := habove.watched_isPrefix hc
    cases ht.symm.trans (hn.token_eq.trans hparent)
    have hle := hprefix.length_le
    simp [watched, hinherited] at hle
  | sibling hp hq hpq hother hn =>
    obtain ⟨parent, c, hparent, hc, hinherited, -⟩ := hp.token
    obtain ⟨parent', o, hparent', ho, hinherited', -⟩ := hq.token
    obtain ⟨t, ht, hprefix⟩ := habove.watched_isPrefix hc
    cases ht.symm.trans (hn.token_eq.trans ho)
    cases hparent.symm.trans (hpq.token_eq.trans hparent')
    -- both watch one flag more than their parent
    have hsame := hprefix.eq_of_length (by simp [watched, hinherited, hinherited'])
    have hown : c.own = o.own := by simpa [watched, hinherited, hinherited'] using hsame
    exact hother (IsFresh.eq_of_own_eq (.inr ⟨_, hq⟩) (.inr ⟨_, hp⟩) ho hc hown.symm)
  | root hp hr hn =>
    obtain ⟨parent, c, -, hc, hinherited, -⟩ := hp.token
    obtain ⟨r, hroot, halone, -⟩ := hr.token
    obtain ⟨t, ht, hprefix⟩ := habove.watched_isPrefix hc
    cases ht.symm.trans (hn.token_eq.trans hroot)
    have hle := hprefix.length_le
    simp [watched, hinherited, halone] at hle

/-- **A token is cancelled just if `cancel` was called on it or above it**: on the token, on a clone of it, on an
ancestor, or on a clone of an ancestor, by any of the operations so far.
- So no other call of `cancel` makes a difference to it, and in particular a cancelled child leaves its parent, its
  siblings and all roots as they are.
- Once it is cancelled it stays so, whatever is done later. -/
theorem isCancelled_iff_called (ht : (run ops).tokens[n]? = some t) :
    (t.isCancelled (run ops).flags = true ↔ ∃ m, AtOrAbove ops n m ∧ Called ops m) ∧
    (∀ m, ¬ AtOrAbove ops n m → t.isCancelled (run (ops ++ [.cancel m])).flags = t.isCancelled (run ops).flags) ∧
    (∀ child, Aside ops child n → t.isCancelled (run (ops ++ [.cancel child])).flags = t.isCancelled (run ops).flags) ∧
    (t.isCancelled (run ops).flags = true → ∀ later, (run (ops ++ later)).tokens[n]? = some t ∧
      t.isCancelled (run (ops ++ later)).flags = true) := by
  refine ⟨isCancelled_run_iff ht, fun m => isCancelled_cancel ht, fun child haside => ?_, fun hcancelled later => ?_⟩
  · exact isCancelled_cancel ht haside.not_atOrAbove
  · obtain ⟨m, habove, hcalled⟩ := (isCancelled_run_iff ht).1 hcancelled
    have ht' := getElem?_run_append ht later
    exact ⟨ht', (isCancelled_run_iff ht').2 ⟨m, habove.mono later, hcalled.mono later⟩⟩

/-! ## A family of tokens -/

/-- a root, a child of it with a clone and a child of its own, another child of the root, and another root -/
def family : List Operation := [.new, .child 0, .clone 1, .child 1, .child 0, .new]

/-- the clone cancels the grandchild, which stays cancelled whatever is done later; the other child is spared -/
theorem family_is_cancelled_downwards :
    (∃ t, (run (family ++ [.cancel 2])).tokens[3]? = some t ∧ t.isCancelled (run (family ++ [.cancel 2])).flags = true ∧
      ∀ later, t.isCancelled (run (family ++ [.cancel 2] ++ later)).flags = true) ∧
    ∃ t, (run family).tokens[4]? = some t ∧ Aside family 1 4 ∧
      t.isCancelled (run (family ++ [.cancel 1])).flags = false := by
  have hchild : IsChild family 1 0 := ⟨⟨[.new], _, rfl, rfl⟩, by decide⟩
  constructor
  · have hgrandchild : IsChild (family ++ [.cancel 2]) 3 1 := ⟨⟨[.new, .child 0, .clone 1], _, rfl, rfl⟩, by decide⟩
    have hclone : IsClone (family ++ [.cancel 2]) 2 1 := ⟨⟨[.new, .child 0], _, rfl, rfl⟩, by decide⟩
    have hcalled : Called (family ++ [.cancel 2]) 2 := ⟨6, ⟨family, [], rfl, rfl⟩, by decide⟩
    have ht : (run (family ++ [.cancel 2])).tokens[3]? = some ⟨[0, 1], 2⟩ := rfl
    obtain ⟨hiff, -, -, hstays⟩ := isCancelled_iff_called ht
    have habove : AtOrAbove (family ++ [.cancel 2]) 3 2 :=
      .parent (.refl _ 3) hgrandchild (.symm _ _ (.rel _ _ hclone))
    have hcancelled := hiff.2 ⟨2, habove, hcalled⟩
    exact ⟨_, ht, hcancelled, fun later => (hstays hcancelled later).2⟩
  · have hother : IsChild family 4 0 := ⟨⟨[.new, .child 0, .clone 1, .child 1], _, rfl, rfl⟩, by decide⟩
    have haside : Aside family 1 4 := .sibling hchild hother (.refl 0) (by decide) (.refl 4)
    have ht : (run family).tokens[4]? = some ⟨[0], 3⟩ := rfl
    obtain ⟨-, -, hspared, -⟩ := isCancelled_iff_called ht
    exact ⟨_, ht, haside, (hspared 1 haside).trans rfl⟩

end Fleet.CancelToken
