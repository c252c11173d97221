/-
The end of a publishing run, and its outcome.

When every worker is finished, nothing is pending: what failed was reported, and what was reported rests on deeds of the
log (`Closed`). The outcome depends on the reports alone: on the first fault among them, or else on the images.
-/
import Fleet.Proofs.Deploy.Stages
import Fleet.Proofs.Publish.Jobs
import Fleet.Proofs.SortedMap

namespace Fleet.Publish

open Dialogue

variable {t : Target} {s s' : State} {n : Nat} {d : Deed} {es asked : List Asked} {log : List (Nat × Deed)}
  {jobs : List ImageJob} {concurrency : Nat} {r : Except Fault Images} {f : Fault}

/-! ## The first fault -/

theorem firstFault_eq_none_iff {l : List (Except Fault Published)} : firstFault l = none ↔ ∀ f, .error f ∉ l := by
  induction l with
  | nil => simp [firstFault]
  | cons r l ih =>
    cases r with
    | error f =>
      simp only [firstFault, reduceCtorEq, false_iff]
      exact fun h => h f List.mem_cons_self
    | ok p => simp [firstFault, ih]

/-- the fault that arrives before any other -/
theorem firstFault_eq_some_iff {l : List (Except Fault Published)} :
    firstFault l = some f ↔ ∃ before after, l = before ++ .error f :: after ∧ ∀ g, .error g ∉ before := by
  induction l with
  | nil => simp [firstFault]
  | cons r l ih =>
    cases r with
    | error g =>
      simp only [firstFault, Option.some.injEq]
      constructor
      · rintro rfl; exact ⟨[], l, rfl, by simp⟩
      · rintro ⟨before, after, hl, hnone⟩
        cases before with
        | nil => cases hl; rfl
        | cons x before =>
          cases hl
          exact absurd List.mem_cons_self (hnone g)
    | ok p =>
      simp only [firstFault, ih]
      constructor
      · rintro ⟨before, after, rfl, hnone⟩
        exact ⟨.ok p :: before, after, rfl, by simpa using hnone⟩
      · rintro ⟨before, after, hl, hnone⟩
        cases before with
        | nil => cases hl
        | cons x before =>
          cases hl
          exact ⟨before, after, rfl, fun g hg => hnone g (List.mem_cons_of_mem _ hg)⟩

theorem mem_published_iff {l : List (Except Fault Published)} {p : Published} : p ∈ published l ↔ .ok p ∈ l := by
  induction l with
  | nil => simp [published]
  | cons r l ih => cases r <;> simp [published, ih]

theorem length_published_le (l : List (Except Fault Published)) : (published l).length ≤ l.length := by
  induction l with
  | nil => rfl
  | cons r l ih =>
    cases r with
    | error f => exact Nat.le_succ_of_le ih
    | ok p => exact Nat.succ_le_succ ih

theorem play_outcome_iff {total : Nat} :
    (outcome total s).Play es r ↔
      (∃ f, firstFault s.results.reverse = some f ∧ es = [] ∧ r = .error f) ∨
      firstFault s.results.reverse = none ∧ ∃ c, es = [⟨.cancelled, c⟩] ∧
        r = if c || (SortedMap.ofList (published s.results.reverse)).size ≠ total then .error .cancelled
          else .ok (SortedMap.ofList (published s.results.reverse)) := by
  unfold outcome
  cases hfirst : firstFault s.results.reverse with
  | some f => simp [hfirst]
  | none =>
    simp only [hfirst, reduceCtorEq, false_and, exists_false, false_or, true_and]
    refine play_cancelled_bind_iff.trans (exists_congr fun c => ?_)
    by_cases hc : (c || decide ((SortedMap.ofList (published s.results.reverse)).size ≠ total)) = true
    · simp only [if_pos hc]
      constructor
      · rintro ⟨_, rfl, h⟩
        obtain ⟨rfl, rfl⟩ := play_fail_iff.1 h
        exact ⟨rfl, rfl⟩
      · rintro ⟨rfl, rfl⟩; exact ⟨[], rfl, .fail _⟩
    · simp only [if_neg hc]
      constructor
      · rintro ⟨_, rfl, h⟩
        obtain ⟨rfl, rfl⟩ := play_done_iff.1 h
        exact ⟨rfl, rfl⟩
      · rintro ⟨rfl, rfl⟩; exact ⟨[], rfl, .done _⟩

/-! ## Nothing is pending at the end -/

/-- a log at whose end every worker is finished -/
structure Closed (t : Target) (jobs : List ImageJob) (log : List (Nat × Deed)) (s : State) : Prop
    extends Sound t jobs log s where
  finished : ∀ (n : Nat) (w : Worker), s.workers[n]? = some w → w = .finished
  someone : ∃ (n : Nat) (w : Worker), s.workers[n]? = some w

theorem Logged.closed (h : Logged t (start jobs concurrency) asked log s) (hready : ready s = []) :
    Closed t jobs log s where
  toSound := h.sound
  finished _ w hw := ready_eq_nil_iff.1 hready w (List.mem_of_getElem? hw)
  someone := by
    have hlen : 0 < s.workers.length := by
      rw [h.length_workers]
      simp [start, workerCount]
    exact ⟨0, s.workers[0], List.getElem?_eq_getElem hlen⟩

theorem Closed.not_worker (h : Closed t jobs log s) {w : Worker} (hw : s.workers[n]? = some w)
    (hne : w ≠ .finished) : False := hne (h.finished n w hw)

/-- a failure was reported -/
theorem Closed.reported_of_failed (h : Closed t jobs log s) (hf : Failed log n f) : .error f ∈ reports log := by
  rcases h.failing n f hf with hw | hw | hr
  · exact (h.not_worker hw (by simp)).elim
  · exact (h.not_worker hw (by simp)).elim
  · exact hr

/-- if nothing failed and the token was not seen cancelled, the queue is empty -/
theorem Closed.queue_eq_nil (h : Closed t jobs log s) (hnone : ∀ n f, ¬ Failed log n f)
    (htoken : ∀ n, (n, .look true) ∉ log) : s.queue = [] := by
  obtain ⟨n, w, hw⟩ := h.someone
  obtain rfl := h.finished n w hw
  rcases h.stopped n hw with hq | hab | ⟨m, hm⟩
  · exact hq
  · obtain ⟨m, f, hf⟩ := h.aborted hab
    exact absurd (h.raised m f hf) (hnone m f)
  · exact absurd hm (htoken m)

/-- if nothing failed, a job is done as a whole or still waits -/
theorem Closed.whole_of_tracked (h : Closed t jobs log s) (htracked : Tracked t jobs log s)
    (hnone : ∀ n f, ¬ Failed log n f) {j : ImageJob} (hj : j ∈ jobs) :
    j ∈ s.queue ∨ ∃ n, about j log = wholeJob n j ∧ .ok (publication t j) ∈ reports log := by
  rcases htracked.accounted j hj with hq | ⟨n, stage, hw⟩ | ⟨n, hwhole, hw | hr⟩ | ⟨n, f, hf⟩
  · exact .inl hq
  · exact (h.not_worker hw (by simp)).elim
  · exact (h.not_worker hw (by simp)).elim
  · exact .inr ⟨n, hwhole, hr⟩
  · exact absurd hf (hnone n f)

/-! ## What a log shows -/

/-- what a deed exchanged is among what its log exchanged -/
theorem Logged.shows (h : Logged t s asked log s') (hd : (n, d) ∈ log) : ∃ shown, d.Shows t shown ∧ shown ⊆ asked := by
  induction h with
  | nil s => cases hd
  | cons hpick hcan hshown hrest ih =>
    rcases List.mem_cons.1 hd with hd | hd
    · cases hd
      exact ⟨_, hshown, fun e he => List.mem_cons_of_mem _ (List.mem_append_left _ he)⟩
    · obtain ⟨shown, hshows, hsub⟩ := ih hd
      exact ⟨shown, hshows, fun e he => List.mem_cons_of_mem _ (List.mem_append_right _ (hsub he))⟩

/-- the token is found cancelled only by a worker that looks at it -/
theorem Logged.look_of_mem (h : Logged t s asked log s') (hmem : (⟨.cancelled, true⟩ : Asked) ∈ asked) :
    ∃ n, (n, .look true) ∈ log := by
  induction h with
  | nil s => cases hmem
  | @cons s s' n k d shown rest log hpick hcan hshown hrest ih =>
    rcases List.mem_cons.1 hmem with hmem | hmem
    · cases hmem
    rcases List.mem_append.1 hmem with hmem | hmem
    · cases d with
      | look c =>
        cases hshown
        cases List.mem_singleton.1 hmem
        exact ⟨n, List.mem_cons_self⟩
      | call j stage r =>
        obtain ⟨a, rfl, _⟩ := hshown
        cases List.mem_singleton.1 hmem
      | _ =>
        cases hshown
        cases hmem
    · obtain ⟨m, hm⟩ := ih hmem
      exact ⟨m, List.mem_cons_of_mem _ hm⟩

/-- the call of a deed, if it makes one -/
def Deed.call? (t : Target) : Deed → Option Call
  | .call j stage _ => some (stageCall t j stage)
  | _ => none

theorem Deed.Shows.calls_eq {shown : List Asked} (h : d.Shows t shown) : calls shown = (d.call? t).toList := by
  cases d with
  | look c => cases h; rfl
  | call j stage r => obtain ⟨a, rfl, _⟩ := h; rfl
  | _ => cases h; rfl

/-- the calls that were made are those of the log -/
theorem Logged.calls_eq (h : Logged t s asked log s') : calls asked = log.filterMap fun e => e.2.call? t := by
  induction h with
  | nil s => rfl
  | @cons s s' n k d shown rest log hpick hcan hshown hrest ih =>
    change calls (shown ++ rest) = _
    rw [calls_append, hshown.calls_eq, ih, List.filterMap_cons]
    cases d.call? t <;> rfl

theorem Course.calls_eq (h : Course t jobs concurrency log es r) : calls es = log.filterMap fun e => e.2.call? t := by
  obtain ⟨asked, s, rest, rfl, hlogged, _, houtcome⟩ := h
  have hrest : calls rest = [] := by
    rcases play_outcome_iff.1 houtcome with ⟨_, _, rfl, _⟩ | ⟨_, _, rfl, _⟩ <;> rfl
  rw [calls_append, hrest, List.append_nil, hlogged.calls_eq]

end Fleet.Publish
