/-
The depth-first search behind the starting order.

A node is open from when it is seen until it is finished. The search keeps that open nodes wait on the stack, that what
is above an open node can be reached from it, and that every dependent of an open node is finished, above it, or leads
back to it (`Search.Sound`). So the list of finished nodes is a topological order but for edges that lie on a cycle.
- `step_cases`: what one step does. `Step.sound`: it keeps the invariant. `Step.left_lt`: it lowers a measure.
- `searchAll_range`: the nodes are finished each once, none of them depends on itself, and every edge points forward in
  their list or lies on a cycle.
-/
import Mathlib.Logic.Relation
import Mathlib.Tactic
import Fleet.StartOrder

namespace Fleet.StartGraph

open Relation

variable {g : StartGraph} {s s' : Search} {m n : Nat} {rest seen finished finished' : List Nat}

/-! ## Edges and paths -/

/-- an edge from a dependency to its dependent -/
def Edge (g : StartGraph) (m n : Nat) : Prop := (m, n) ∈ g.edges

/-- a path of one edge or more -/
abbrev Leads (g : StartGraph) : Nat → Nat → Prop := TransGen g.Edge

/-- all edges are between nodes of the graph -/
def Proper (g : StartGraph) : Prop := ∀ m n, g.Edge m n → m < g.size ∧ n < g.size

theorem mem_after_iff : m ∈ g.after n ↔ g.Edge n m := by
  simp [after, Edge]

theorem mem_before_iff : m ∈ g.before n ↔ g.Edge m n := by
  simp [before, Edge]

/-! ## One step -/

/-- the dependents of a node that the search has not come to yet -/
def fresh (g : StartGraph) (seen : List Nat) (n : Nat) : List Nat :=
  ((g.after n).filter fun m => !(n :: seen).contains m).reverse

theorem mem_fresh_iff : m ∈ g.fresh seen n ↔ g.Edge n m ∧ m ≠ n ∧ m ∉ seen := by
  simp [fresh, mem_after_iff]

/-- the steps of a search: leave a finished node, finish a node, or see a new one -/
inductive Step (g : StartGraph) : Search → Search → Prop
  | leave (n : Nat) (rest seen finished : List Nat) (hseen : n ∈ seen) (hfinished : n ∈ finished) :
    Step g ⟨n :: rest, seen, finished⟩ ⟨rest, seen, finished⟩
  | finish (n : Nat) (rest seen finished : List Nat) (hseen : n ∈ seen) (hopen : n ∉ finished) :
    Step g ⟨n :: rest, seen, finished⟩ ⟨rest, seen, n :: finished⟩
  | see (n : Nat) (rest seen finished : List Nat) (hnew : n ∉ seen) (hself : ¬ g.Edge n n) :
    Step g ⟨n :: rest, seen, finished⟩ ⟨g.fresh seen n ++ n :: rest, n :: seen, finished⟩

/-- a step is one of these, or it ends at a node that depends on itself -/
theorem step_cases (hstack : s.stack ≠ []) :
    (∃ n, g.step s = .error n ∧ g.Edge n n) ∨ ∃ s', g.step s = .ok s' ∧ Step g s s' := by
  obtain ⟨stack, seen, finished⟩ := s
  cases stack with
  | nil => exact absurd rfl hstack
  | cons n rest =>
    by_cases hseen : n ∈ seen
    · by_cases hfinished : n ∈ finished
      · exact .inr ⟨_, by simp [step, hseen, hfinished], .leave n rest seen finished hseen hfinished⟩
      · exact .inr ⟨_, by simp [step, hseen, hfinished], .finish n rest seen finished hseen hfinished⟩
    · by_cases hself : g.Edge n n
      · exact .inl ⟨n, by simp [step, hseen, mem_after_iff, hself], hself⟩
      · refine .inr ⟨_, ?_, .see n rest seen finished hseen hself⟩
        simp [step, hseen, mem_after_iff, hself, fresh]

/-! ## What a search keeps -/

/-- seen, and not finished -/
def Search.Open (s : Search) (n : Nat) : Prop := n ∈ s.seen ∧ n ∉ s.finished

/-- what is on the stack above a node -/
def Search.above (s : Search) (n : Nat) : List Nat := s.stack.takeWhile (· ≠ n)

structure Search.Sound (g : StartGraph) (s : Search) : Prop where
  nodup : s.finished.Nodup
  finished : ∀ n ∈ s.finished, n ∈ s.seen
  known : ∀ n, n ∈ s.stack ∨ n ∈ s.seen → n < g.size
  waiting : ∀ n, s.Open n → n ∈ s.stack
  path : ∀ n, s.Open n → ∀ m ∈ s.above n, g.Leads n m
  covered : ∀ n, s.Open n → ∀ m, g.Edge n m → m ∈ s.finished ∨ m ∈ s.above n ∨ g.Leads m n
  ordered : ∀ m n, g.Edge m n → m ∈ s.finished → [m, n].Sublist s.finished ∨ g.Leads n m

theorem Search.above_cons {k : Nat} (hk : n ≠ k) :
    (Search.above ⟨n :: rest, seen, finished⟩ k) = n :: Search.above ⟨rest, seen, finished⟩ k :=
  List.takeWhile_cons_of_pos (by simpa using hk)

/-- a node on top that is finished may be left -/
theorem Search.Sound.pop (hs : Search.Sound g ⟨n :: rest, seen, finished⟩)
    (hgrows : finished ⊆ finished') (hn : n ∈ finished') (hnodup : finished'.Nodup) (hseen : ∀ k ∈ finished', k ∈ seen)
    (hordered : ∀ m k, g.Edge m k → m ∈ finished' → [m, k].Sublist finished' ∨ g.Leads k m) :
    Search.Sound g ⟨rest, seen, finished'⟩ := by
  have hother (k : Nat) (hk : Search.Open ⟨rest, seen, finished'⟩ k) : n ≠ k := by
    rintro rfl
    exact hk.2 hn
  have hbefore (k : Nat) (hk : Search.Open ⟨rest, seen, finished'⟩ k) : Search.Open ⟨n :: rest, seen, finished⟩ k :=
    ⟨hk.1, fun hin => hk.2 (hgrows hin)⟩
  refine ⟨hnodup, hseen, ?_, ?_, ?_, ?_, hordered⟩
  · intro k hk
    exact hs.known k (hk.imp_left (List.mem_cons_of_mem n))
  · intro k hk
    exact (List.mem_cons.1 (hs.waiting k (hbefore k hk))).resolve_left (hother k hk).symm
  · intro k hk m hm
    refine hs.path k (hbefore k hk) m ?_
    rw [Search.above_cons (hother k hk)]
    exact List.mem_cons_of_mem n hm
  · intro k hk m hedge
    rcases hs.covered k (hbefore k hk) m hedge with hm | hm | hm
    · exact .inl (hgrows hm)
    · rw [Search.above_cons (hother k hk)] at hm
      rcases List.mem_cons.1 hm with rfl | hm
      · exact .inl hn
      · exact .inr (.inl hm)
    · exact .inr (.inr hm)

/-- a finished node is left -/
theorem Search.Sound.leave (hs : Search.Sound g ⟨n :: rest, seen, finished⟩) (hfinished : n ∈ finished) :
    Search.Sound g ⟨rest, seen, finished⟩ :=
  hs.pop (List.Subset.refl finished) hfinished hs.nodup hs.finished hs.ordered

/-- the node on top is finished: nothing that it leads to is above it -/
theorem Search.Sound.finish (hs : Search.Sound g ⟨n :: rest, seen, finished⟩) (hseen : n ∈ seen)
    (hopen : n ∉ finished) : Search.Sound g ⟨rest, seen, n :: finished⟩ := by
  refine hs.pop (List.subset_cons_self n finished) List.mem_cons_self (List.nodup_cons.2 ⟨hopen, hs.nodup⟩)
    (List.forall_mem_cons.2 ⟨hseen, hs.finished⟩) fun m k hedge hm => ?_
  rcases List.mem_cons.1 hm with rfl | hm
  · rcases hs.covered m ⟨hseen, hopen⟩ k hedge with hk | hk | hk
    · exact .inl (List.Sublist.cons_cons m (List.singleton_sublist.2 hk))
    · simp [Search.above] at hk
    · exact .inr hk
  · exact (hs.ordered m k hedge hm).imp_left fun h => h.trans (List.sublist_cons_self n finished)

/-- what is pushed is new, so for every other node it comes on top of what was above that node -/
theorem Search.above_fresh {k : Nat} (hk : k = n ∨ k ∈ seen) :
    Search.above ⟨g.fresh seen n ++ n :: rest, n :: seen, finished⟩ k =
      g.fresh seen n ++ Search.above ⟨n :: rest, seen, finished⟩ k := by
  refine List.takeWhile_append_of_pos fun m hm => ?_
  obtain ⟨_, hne, hunseen⟩ := mem_fresh_iff.1 hm
  have hmk : m ≠ k := by
    rintro rfl
    exact hk.elim hne hunseen
  simpa using hmk

/-- what is open leads to a new node on top -/
theorem Search.Sound.leads_top (hs : Search.Sound g ⟨n :: rest, seen, finished⟩) (hnew : n ∉ seen) {k : Nat}
    (hk : Search.Open ⟨n :: rest, seen, finished⟩ k) : g.Leads k n := by
  have hne : n ≠ k := by
    rintro rfl
    exact hnew hk.1
  refine hs.path k hk n ?_
  rw [Search.above_cons hne]
  exact List.mem_cons_self

/-- what is above an open node when a new node is seen -/
theorem Search.mem_above_fresh_iff {k : Nat} (hk : k = n ∨ Search.Open ⟨n :: rest, seen, finished⟩ k) :
    m ∈ Search.above ⟨g.fresh seen n ++ n :: rest, n :: seen, finished⟩ k ↔
      m ∈ g.fresh seen n ∨ k ≠ n ∧ m ∈ Search.above ⟨n :: rest, seen, finished⟩ k := by
  rw [Search.above_fresh (hk.imp_right And.left), List.mem_append]
  refine or_congr_right ⟨fun hm => ⟨?_, hm⟩, And.right⟩
  rintro rfl
  simp [Search.above] at hm

/-- all that the dependents of a new node need: they are finished, pushed, or lead back to it -/
theorem Search.Sound.covered_see (hs : Search.Sound g ⟨n :: rest, seen, finished⟩) (hnew : n ∉ seen)
    (hself : ¬ g.Edge n n) (hedge : g.Edge n m) : m ∈ finished ∨ m ∈ g.fresh seen n ∨ g.Leads m n := by
  by_cases hm : m ∈ seen
  · by_cases hfinished : m ∈ finished
    · exact .inl hfinished
    · -- the dependent is open itself: it waits further down, and leads to the node on top
      exact .inr (.inr (hs.leads_top hnew ⟨hm, hfinished⟩))
  · have hne : m ≠ n := by
      rintro rfl
      exact hself hedge
    exact .inr (.inl (mem_fresh_iff.2 ⟨hedge, hne, hm⟩))

/-- a new node is seen, and its dependents that are new are pushed -/
theorem Search.Sound.see (hproper : g.Proper) (hs : Search.Sound g ⟨n :: rest, seen, finished⟩) (hnew : n ∉ seen)
    (hself : ¬ g.Edge n n) : Search.Sound g ⟨g.fresh seen n ++ n :: rest, n :: seen, finished⟩ := by
  have hcases (k : Nat) (hk : Search.Open ⟨g.fresh seen n ++ n :: rest, n :: seen, finished⟩ k) :
      k = n ∨ Search.Open ⟨n :: rest, seen, finished⟩ k :=
    (List.mem_cons.1 hk.1).imp_right fun hin => ⟨hin, hk.2⟩
  refine ⟨hs.nodup, fun k hk => List.mem_cons_of_mem n (hs.finished k hk), ?_, ?_, ?_, ?_, hs.ordered⟩
  · rintro k (hk | hk)
    · rcases List.mem_append.1 hk with hk | hk
      · exact (hproper n k (mem_fresh_iff.1 hk).1).2
      · exact hs.known k (.inl hk)
    · rcases List.mem_cons.1 hk with rfl | hk
      · exact hs.known k (.inl List.mem_cons_self)
      · exact hs.known k (.inr hk)
  · intro k hk
    rcases hcases k hk with rfl | hk
    · exact List.mem_append_right _ List.mem_cons_self
    · exact List.mem_append_right _ (hs.waiting k hk)
  · intro k hk m hm
    rcases (Search.mem_above_fresh_iff (hcases k hk)).1 hm with hm | ⟨hne, hm⟩
    · have hedge : g.Leads n m := .single (mem_fresh_iff.1 hm).1
      exact (hcases k hk).elim (fun heq => heq ▸ hedge) fun hk => (hs.leads_top hnew hk).trans hedge
    · exact hs.path k ((hcases k hk).resolve_left hne) m hm
  · intro k hk m hedge
    rw [Search.mem_above_fresh_iff (hcases k hk)]
    rcases hcases k hk with rfl | hk
    · exact (hs.covered_see hnew hself hedge).imp_right (Or.imp_left .inl)
    · have hne : k ≠ n := by
        rintro rfl
        exact hnew hk.1
      exact (hs.covered k hk m hedge).imp_right (Or.imp_left fun hm => .inr ⟨hne, hm⟩)

/-- **A step keeps what the search keeps.** -/
theorem Step.sound (h : Step g s s') (hproper : g.Proper) (hs : s.Sound g) : s'.Sound g := by
  cases h with
  | leave n rest seen finished hseen hfinished => exact hs.leave hfinished
  | finish n rest seen finished hseen hopen => exact hs.finish hseen hopen
  | see n rest seen finished hnew hself => exact hs.see hproper hnew hself

/-! ## Searches end -/

/-- nodes of the stack, unseen nodes and their edges: every step lowers this -/
def left (g : StartGraph) (s : Search) : Nat :=
  s.stack.length + (List.range g.size).countP (· ∉ s.seen) + g.edges.countP (·.1 ∉ s.seen)

/-- what is unseen splits into what a new node uncovers and what stays unseen -/
theorem countP_unseen {α : Type} (f : α → Nat) (hnew : n ∉ seen) (l : List α) :
    l.countP (f · ∉ seen) = l.countP (f · = n) + l.countP (f · ∉ n :: seen) := by
  induction l with
  | nil => rfl
  | cons a l ih =>
    simp only [List.countP_cons, ih, decide_eq_true_eq, List.mem_cons, not_or]
    by_cases hfa : f a = n
    · simp [hfa, hnew]
      omega
    · simp [hfa]
      omega

theorem Step.left_lt (h : Step g s s') (hs : s.Sound g) : left g s' < left g s := by
  cases h with
  | leave n rest seen finished hseen hfinished => simp [left]
  | finish n rest seen finished hseen hopen => simp [left]
  | see n rest seen finished hnew hself =>
    have hn : n < g.size := hs.known n (.inl List.mem_cons_self)
    have hnodes := countP_unseen id hnew (List.range g.size)
    have hedges := countP_unseen Prod.fst hnew g.edges
    have hone : 0 < (List.range g.size).countP (id · = n) :=
      List.countP_pos_iff.2 ⟨n, List.mem_range.2 hn, by simp⟩
    have hfresh : (g.fresh seen n).length ≤ g.edges.countP (·.1 = n) := by
      have hafter : (g.after n).length = g.edges.countP (·.1 = n) := by
        rw [after, List.length_map, List.countP_eq_length_filter]
      rw [fresh, List.length_reverse, ← hafter]
      exact List.length_filter_le _ _
    simp only [left, List.length_append, List.length_cons, id_eq] at *
    omega

/-- nothing that is seen or waits to be seen is forgotten -/
theorem Step.kept (h : Step g s s') (hn : n ∈ s.stack ∨ n ∈ s.seen) : n ∈ s'.stack ∨ n ∈ s'.seen := by
  cases h with
  | leave k rest seen finished hseen hfinished =>
    rcases hn with hn | hn
    · rcases List.mem_cons.1 hn with rfl | hn
      · exact .inr hseen
      · exact .inl hn
    · exact .inr hn
  | finish k rest seen finished hseen hopen =>
    rcases hn with hn | hn
    · rcases List.mem_cons.1 hn with rfl | hn
      · exact .inr hseen
      · exact .inl hn
    · exact .inr hn
  | see k rest seen finished hnew hself =>
    rcases hn with hn | hn
    · exact .inl (List.mem_append_right _ hn)
    · exact .inr (List.mem_cons_of_mem k hn)

/-- no node that was seen depends on itself -/
def Search.Loopless (g : StartGraph) (s : Search) : Prop := ∀ n ∈ s.seen, ¬ g.Edge n n

theorem Step.loopless (h : Step g s s') (hs : s.Loopless g) : s'.Loopless g := by
  cases h with
  | leave n rest seen finished hseen hfinished => exact hs
  | finish n rest seen finished hseen hopen => exact hs
  | see n rest seen finished hnew hself => exact List.forall_mem_cons.2 ⟨hself, hs⟩

theorem searchFrom_loopless {fuel : Nat} (hs : s.Loopless g) (h : g.searchFrom fuel s = .ok s') : s'.Loopless g := by
  induction fuel generalizing s with
  | zero =>
    cases h
    exact hs
  | succ fuel ih =>
    by_cases hstack : s.stack = []
    · have hdone : g.searchFrom (fuel + 1) s = .ok s := by simp [searchFrom, hstack]
      rw [hdone] at h
      cases h
      exact hs
    rcases step_cases (g := g) hstack with ⟨n, hstep, _⟩ | ⟨t, hstep, hone⟩
    · have hended : g.searchFrom (fuel + 1) s = .error n := by simp [searchFrom, hstack, hstep]
      rw [hended] at h
      cases h
    · have hunfold : g.searchFrom (fuel + 1) s = g.searchFrom fuel t := by simp [searchFrom, hstack, hstep]
      exact ih (hone.loopless hs) (hunfold ▸ h)

theorem searchAll_loopless {l : List Nat} (hs : s.Loopless g) (h : g.searchAll s l = .ok s') : s'.Loopless g := by
  induction l generalizing s with
  | nil =>
    cases h
    exact hs
  | cons n l ih =>
    simp only [searchAll] at h
    split at h
    · exact ih hs h
    · split at h
      · cases h
      · rename_i t hsearch
        have hbegin : Search.Loopless g { s with stack := [n] } := hs
        exact ih (searchFrom_loopless hbegin hsearch) h

/-- **A search ends with an empty stack**, or at a node that depends on itself. -/
theorem searchFrom_cases (hproper : g.Proper) {fuel : Nat} (hs : s.Sound g) (hfuel : left g s ≤ fuel) :
    (∃ n, g.searchFrom fuel s = .error n ∧ g.Edge n n) ∨ ∃ s', g.searchFrom fuel s = .ok s' ∧ s'.Sound g ∧
      s'.stack = [] ∧ ∀ n, n ∈ s.stack ∨ n ∈ s.seen → n ∈ s'.seen := by
  induction fuel generalizing s with
  | zero =>
    have hstack : s.stack = [] := List.length_eq_zero_iff.1 (by unfold left at hfuel; omega)
    exact .inr ⟨s, rfl, hs, hstack, fun n hn => hn.resolve_left (by simp [hstack])⟩
  | succ fuel ih =>
    by_cases hstack : s.stack = []
    · refine .inr ⟨s, by simp [searchFrom, hstack], hs, hstack, fun n hn => hn.resolve_left (by simp [hstack])⟩
    rcases step_cases hstack with ⟨n, hstep, hself⟩ | ⟨s', hstep, h⟩
    · exact .inl ⟨n, by simp [searchFrom, hstack, hstep], hself⟩
    · have hunfold : g.searchFrom (fuel + 1) s = g.searchFrom fuel s' := by simp [searchFrom, hstack, hstep]
      have hlower : left g s' ≤ fuel := by
        have hlt := h.left_lt hs
        omega
      rw [hunfold]
      refine (ih (h.sound hproper hs) hlower).imp_right ?_
      rintro ⟨t, hsearch, hsound, hempty, hseen⟩
      exact ⟨t, hsearch, hsound, hempty, fun n hn => hseen n (h.kept hn)⟩

/-- with an empty stack, what is seen is finished -/
theorem Search.Sound.finished_of_seen (hs : s.Sound g) (hstack : s.stack = []) (hn : n ∈ s.seen) : n ∈ s.finished := by
  by_contra hopen
  have hwaiting := hs.waiting n ⟨hn, hopen⟩
  rw [hstack] at hwaiting
  cases hwaiting

/-- a search may begin at any node -/
theorem Search.Sound.begin (hs : s.Sound g) (hstack : s.stack = []) (hn : n < g.size) :
    Search.Sound g { s with stack := [n] } := by
  have hclosed (k : Nat) : ¬ Search.Open { s with stack := [n] } k := fun hk => hk.2 (hs.finished_of_seen hstack hk.1)
  refine ⟨hs.nodup, hs.finished, ?_, fun k hk => absurd hk (hclosed k), fun k hk => absurd hk (hclosed k),
    fun k hk => absurd hk (hclosed k), hs.ordered⟩
  rintro k (hk | hk)
  · obtain rfl := List.mem_singleton.1 hk
    exact hn
  · exact hs.known k (.inr hk)

theorem searchAll_cases (hproper : g.Proper) (hs : s.Sound g) (hstack : s.stack = []) {l : List Nat}
    (hl : ∀ n ∈ l, n < g.size) : (∃ n, g.searchAll s l = .error n ∧ g.Edge n n) ∨
      ∃ s', g.searchAll s l = .ok s' ∧ s'.Sound g ∧ s'.stack = [] ∧ ∀ n, n ∈ l ∨ n ∈ s.seen → n ∈ s'.seen := by
  induction l generalizing s with
  | nil => exact .inr ⟨s, rfl, hs, hstack, fun n hn => hn.resolve_left nofun⟩
  | cons n l ih =>
    obtain ⟨hn, hrest⟩ := List.forall_mem_cons.1 hl
    by_cases hseen : n ∈ s.seen
    · have hunfold : g.searchAll s (n :: l) = g.searchAll s l := by simp [searchAll, hseen]
      rw [hunfold]
      refine (ih hs hstack hrest).imp_right ?_
      rintro ⟨t, hsearch, hsound, hempty, hall⟩
      refine ⟨t, hsearch, hsound, hempty, ?_⟩
      rintro k (hk | hk)
      · rcases List.mem_cons.1 hk with rfl | hk
        · exact hall k (.inr hseen)
        · exact hall k (.inl hk)
      · exact hall k (.inr hk)
    · have henough : left g { s with stack := [n] } ≤ g.enough := by
        have hnodes := List.countP_le_length (p := fun k => decide (k ∉ s.seen)) (l := List.range g.size)
        have hedges := List.countP_le_length (p := fun e => decide (e.1 ∉ s.seen)) (l := g.edges)
        rw [List.length_range] at hnodes
        simp only [left, enough, List.length_singleton]
        omega
      rcases searchFrom_cases hproper (hs.begin hstack hn) henough with ⟨k, hsearch, hself⟩ | ⟨t, hsearch, hsound,
        hempty, hall⟩
      · exact .inl ⟨k, by simp [searchAll, hseen, hsearch], hself⟩
      · have hunfold : g.searchAll s (n :: l) = g.searchAll t l := by simp [searchAll, hseen, hsearch]
        rw [hunfold]
        refine (ih hsound hempty hrest).imp_right ?_
        rintro ⟨u, hothers, hsound', hempty', hall'⟩
        refine ⟨u, hothers, hsound', hempty', ?_⟩
        rintro k (hk | hk)
        · rcases List.mem_cons.1 hk with rfl | hk
          · exact hall' k (.inr (hall k (.inl List.mem_cons_self)))
          · exact hall' k (.inl hk)
        · exact hall' k (.inr (hall k (.inr hk)))

/-- **All nodes are finished, each once**, and an edge points forward in their list or lies on a longer cycle; or some
node depends on itself. -/
theorem searchAll_range (hproper : g.Proper) : (∃ n, g.searchAll {} (List.range g.size) = .error n ∧ g.Edge n n) ∨
    ∃ s, g.searchAll {} (List.range g.size) = .ok s ∧ s.finished.Perm (List.range g.size) ∧
      ∀ m n, g.Edge m n → m ≠ n ∧ ([m, n].Sublist s.finished ∨ g.Leads n m) := by
  have hstart : Search.Sound g {} := by
    refine ⟨List.nodup_nil, nofun, fun n hn => ?_, fun n hn => ?_, fun n hn => ?_, fun n hn => ?_, nofun⟩
    · rcases hn with hn | hn <;> cases hn
    · cases hn.1
    · cases hn.1
    · cases hn.1
  refine (searchAll_cases hproper hstart rfl fun n hn => List.mem_range.1 hn).imp_right ?_
  rintro ⟨s, hsearch, hsound, hempty, hall⟩
  have hmem (n : Nat) : n ∈ s.finished ↔ n ∈ List.range g.size := by
    constructor
    · intro hn
      exact List.mem_range.2 (hsound.known n (.inr (hsound.finished n hn)))
    · intro hn
      exact hsound.finished_of_seen hempty (hall n (.inl hn))
  refine ⟨s, hsearch, (List.perm_ext_iff_of_nodup hsound.nodup List.nodup_range).2 hmem, fun m n hedge => ?_⟩
  have hm : m ∈ s.finished := (hmem m).2 (List.mem_range.2 (hproper m n hedge).1)
  refine ⟨?_, hsound.ordered m n hedge hm⟩
  rintro rfl
  have hloopless : s.Loopless g := searchAll_loopless (by simp [Search.Loopless]) hsearch
  exact hloopless m (hsound.finished m hm) hedge

end Fleet.StartGraph
