/-
The second search behind the starting order: walks against the edges, one from each finished node in turn.

A walk passes over what earlier walks saw. So a walk from a node that comes to a second node has found an edge that does
not point forward in the list of finished nodes, and such an edge lies on a cycle.
- `walkBack_cases`: a walk sees no second node, or its second node has an edge to where the walk began.
- `findCycle_cases`: all edges point forward, or what is found is the origin of an edge that does not.
- `order_cases`: the answer for a graph is all nodes with every edge pointing forward, or a node on a cycle.
-/
import Fleet.Proofs.Lists
import Fleet.Proofs.StartOrder.Search

namespace Fleet.StartGraph

open Relation

variable {g : StartGraph} {m n : Nat}

/-! ## Walks -/

/-- the origins of edges to a node that a walk has not come to yet -/
def freshBefore (g : StartGraph) (seen : List Nat) (n : Nat) : List Nat :=
  ((g.before n).filter fun m => !(n :: seen).contains m).reverse

theorem mem_freshBefore_iff {seen : List Nat} : m ∈ g.freshBefore seen n ↔ g.Edge m n ∧ m ∉ n :: seen := by
  simp [freshBefore, mem_before_iff]

theorem walkBack_of_mem {fuel : Nat} {seen stack found : List Nat} (hn : n ∈ seen) :
    g.walkBack (fuel + 1) seen (n :: stack) found = g.walkBack fuel seen stack found := by
  simp [walkBack, hn]

theorem walkBack_of_not_mem {fuel : Nat} {seen stack found : List Nat} (hn : n ∉ seen) :
    g.walkBack (fuel + 1) seen (n :: stack) found =
      g.walkBack fuel (n :: seen) (g.freshBefore seen n ++ stack) (n :: found) := by
  simp [walkBack, hn, freshBefore]

/-- what a walk has found stays in front of what it finds later -/
theorem walkBack_found (g : StartGraph) (fuel : Nat) (seen stack found : List Nat) :
    ∃ more, (g.walkBack fuel seen stack found).2 = found.reverse ++ more := by
  induction fuel generalizing seen stack found with
  | zero => exact ⟨[], by simp [walkBack]⟩
  | succ fuel ih =>
    cases stack with
    | nil => exact ⟨[], by simp [walkBack]⟩
    | cons n stack =>
      by_cases hn : n ∈ seen
      · rw [walkBack_of_mem hn]
        exact ih seen stack found
      · obtain ⟨more, hmore⟩ := ih (n :: seen) (g.freshBefore seen n ++ stack) (n :: found)
        rw [walkBack_of_not_mem hn, hmore]
        exact ⟨n :: more, by simp⟩

/-- **A walk from a new node finds it alone, or finds next a new node that has an edge to it.** -/
theorem walkBack_cases {seen : List Nat} (hn : n ∉ seen) :
    (g.walkBack g.enough seen [n] [] = (n :: seen, [n]) ∧ ∀ m, g.Edge m n → m ∈ n :: seen) ∨
    ∃ m more, (g.walkBack g.enough seen [n] []).2 = n :: m :: more ∧ g.Edge m n ∧ m ∉ n :: seen := by
  have henough : g.enough = 2 * g.size + 2 * g.edges.length + 1 + 1 := rfl
  rw [henough, walkBack_of_not_mem hn, List.append_nil]
  cases hfresh : g.freshBefore seen n with
  | nil =>
    refine .inl ⟨rfl, fun m hedge => ?_⟩
    by_contra hunseen
    have hm : m ∈ g.freshBefore seen n := mem_freshBefore_iff.2 ⟨hedge, hunseen⟩
    rw [hfresh] at hm
    cases hm
  | cons m rest =>
    obtain ⟨hedge, hunseen⟩ := mem_freshBefore_iff.1 (hfresh ▸ List.mem_cons_self)
    obtain ⟨more, hmore⟩ := walkBack_found g (2 * g.size + 2 * g.edges.length) (m :: n :: seen)
      (g.freshBefore (n :: seen) m ++ rest) [m, n]
    exact .inr ⟨m, more, by rw [walkBack_of_not_mem hunseen, hmore]; rfl, hedge, hunseen⟩

/-- **All edges point forward, or what is found is the origin of an edge that does not.** -/
theorem findCycle_cases (done l : List Nat) (hnodup : (done.reverse ++ l).Nodup) (hloopless : ∀ n, ¬ g.Edge n n) :
    (g.findCycle done l = none ∧ ∀ m n, n ∈ l → g.Edge m n → [m, n].Sublist (done.reverse ++ l)) ∨
    ∃ m n, g.findCycle done l = some m ∧ g.Edge m n ∧ ¬ [m, n].Sublist (done.reverse ++ l) := by
  induction l generalizing done with
  | nil => exact .inl ⟨rfl, nofun⟩
  | cons n rest ih =>
    have hn : n ∉ done := by
      intro hin
      exact (List.nodup_append.1 hnodup).2.2 n (List.mem_reverse.2 hin) n List.mem_cons_self rfl
    have hsame : (n :: done).reverse ++ rest = done.reverse ++ n :: rest := by simp
    rcases walkBack_cases (g := g) hn with ⟨hwalk, hseen⟩ | ⟨m, more, hwalk, hedge, hunseen⟩
    · have hunfold : g.findCycle done (n :: rest) = g.findCycle (n :: done) rest := by rw [findCycle, hwalk]
      rw [hunfold, ← hsame]
      refine (ih (n :: done) (hsame ▸ hnodup)).imp_left (And.imp_right fun hforward m k hk hedge => ?_)
      rcases List.mem_cons.1 hk with rfl | hk
      · have hm : m ∈ done := (List.mem_cons.1 (hseen m hedge)).resolve_left (by rintro rfl; exact hloopless m hedge)
        rw [hsame]
        exact pair_sublist_of_mem (List.mem_reverse.2 hm)
      · exact hforward m k hk hedge
    · obtain ⟨seen, hpair⟩ : ∃ seen, g.walkBack g.enough done [n] [] = (seen, n :: m :: more) := ⟨_, Prod.ext rfl hwalk⟩
      refine .inr ⟨m, n, by rw [findCycle, hpair], hedge, fun hforward => hunseen ?_⟩
      exact List.mem_cons_of_mem n (List.mem_reverse.1 (mem_of_pair_sublist hnodup hforward))

/-! ## Orders -/

/-- **The answer for a graph**: all nodes, each once, with every edge pointing forward, or the fault that names a node
on a cycle. -/
theorem order_cases (hproper : g.Proper) :
    (∃ nodes : List Nat, g.order = .ok (nodes.map fun n => g.names.getD n "") ∧ nodes.Perm (List.range g.size) ∧
      ∀ m n, g.Edge m n → [m, n].Sublist nodes) ∨
    ∃ n, g.order = .error (g.cycleFault n) ∧ g.Leads n n := by
  rcases searchAll_range hproper with ⟨n, hsearch, hself⟩ | ⟨s, hsearch, hperm, hedges⟩
  · exact .inr ⟨n, by simp [order, hsearch], .single hself⟩
  have hnodup : s.finished.Nodup := hperm.nodup_iff.2 List.nodup_range
  have hloopless (n : Nat) : ¬ g.Edge n n := fun hedge => (hedges n n hedge).1 rfl
  rcases findCycle_cases [] s.finished hnodup hloopless with ⟨hnone, hforward⟩ | ⟨m, n, hfound, hedge, hbackward⟩
  · refine .inl ⟨s.finished, by simp [order, hsearch, hnone], hperm, fun m n hedge => hforward m n ?_ hedge⟩
    exact hperm.mem_iff.2 (List.mem_range.2 (hproper m n hedge).2)
  · -- the first search says of an edge that does not point forward that it lies on a cycle
    have hback : g.Leads n m := (hedges m n hedge).2.resolve_left hbackward
    exact .inr ⟨m, by simp [order, hsearch, hfound], .head hedge hback⟩

end Fleet.StartGraph
