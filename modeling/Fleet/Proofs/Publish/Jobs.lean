/-
Each job by itself: what a log says about one job when no job stands twice in the list.

The deeds about a job are one worker's. They stand in the order of the job's calls, as far as the worker has come
(`Tracked.working`), and a job that is nobody's any more was done as a whole, or a call failed (`Tracked.accounted`).
The invariant needs the list to be without repetition: two equal jobs could be with two workers at once.
-/
import Fleet.Proofs.Publish.Ledger

namespace Fleet.Publish

variable {t : Target} {s s' : State} {n m : Nat} {d : Deed} {es : List Asked} {log : List (Nat × Deed)}
  {jobs : List ImageJob} {concurrency : Nat} {i j : ImageJob} {stage : Stage}

/-! ## The deeds about a job -/

/-- the job that a deed is about -/
def Deed.job? : Deed → Option ImageJob
  | .take j | .call j _ _ => some j
  | _ => none

/-- the deeds about a job, in order, with the workers that did them -/
def about (j : ImageJob) (log : List (Nat × Deed)) : List (Nat × Deed) := log.filter fun e => e.2.job? = some j

/-- a worker takes a job and makes its calls, one after the other, and each of them succeeds -/
def wholeJob (n : Nat) (j : ImageJob) : List (Nat × Deed) :=
  [(n, .take j), (n, .call j .fetch (.ok ())), (n, .call j .repository (.ok ())), (n, .call j .tag (.ok ())),
    (n, .call j .push (.ok ()))]

def Stage.position : Stage → Nat
  | .fetch => 0
  | .repository => 1
  | .tag => 2
  | .push => 3

/-- a worker that is about to make this call has done so much of the job -/
def upTo (n : Nat) (j : ImageJob) (stage : Stage) : List (Nat × Deed) := (wholeJob n j).take (stage.position + 1)

theorem about_append_of_ne (h : d.job? ≠ some j) : about j (log ++ [(n, d)]) = about j log := by
  simp [about, List.filter_append, h]

theorem about_append_of_eq (h : d.job? = some j) : about j (log ++ [(n, d)]) = about j log ++ [(n, d)] := by
  simp [about, List.filter_append, h]

theorem upTo_ne_nil (n : Nat) (j : ImageJob) (stage : Stage) : upTo n j stage ≠ [] := by
  cases stage <;> simp [upTo, wholeJob]

theorem upTo_ne_wholeJob (n m : Nat) (j : ImageJob) (stage : Stage) : upTo n j stage ≠ wholeJob m j := by
  intro h
  have := congrArg List.length h
  cases stage <;> simp [upTo, wholeJob, Stage.position] at this

theorem eq_of_upTo_eq {stage' : Stage} (h : upTo n j stage = upTo m j stage') : n = m := by
  have := congrArg List.head? h
  cases stage <;> cases stage' <;> simpa [upTo, wholeJob] using this

/-! ## Tracked logs -/

structure Tracked (t : Target) (jobs : List ImageJob) (log : List (Nat × Deed)) (s : State) : Prop where
  waiting : ∀ j ∈ s.queue, about j log = []
  working : ∀ (n : Nat) (j : ImageJob) (stage : Stage), s.workers[n]? = some (.work j stage) →
    about j log = upTo n j stage
  accounted : ∀ j ∈ jobs, j ∈ s.queue ∨ (∃ (n : Nat) (stage : Stage), s.workers[n]? = some (.work j stage)) ∨
    (∃ (n : Nat), about j log = wholeJob n j ∧
      (s.workers[n]? = some (.report (.ok (publication t j))) ∨ .ok (publication t j) ∈ reports log)) ∨
    ∃ n f, Failed log n f

theorem tracked_start (t : Target) (jobs : List ImageJob) (concurrency : Nat) :
    Tracked t jobs [] (start jobs concurrency) where
  waiting _ _ := rfl
  working n j stage hw := by
    cases (List.mem_replicate.1 (List.mem_of_getElem? hw)).2
  accounted _ hj := .inl hj

/-- a deed is not about a job that is done, nor about another worker's -/
theorem Tracked.job_ne (h : Tracked t jobs log s) (hcan : s.Can n d) (hne : about i log ≠ [])
    (hother : ∀ stage, about i log ≠ upTo n i stage) : d.job? ≠ some i := by
  intro hjob
  cases d with
  | take j =>
    cases hjob
    exact hne (h.waiting i (List.mem_of_head? hcan.2))
  | call j stage r =>
    cases hjob
    exact hother stage (h.working n i stage hcan)
  | _ => cases hjob

theorem mem_queue_of_after (hcan : s.Can n d) (hi : i ∈ (s.after t n d).queue) : i ∈ s.queue := by
  rw [← queue_after (t := t) hcan]
  exact List.mem_append_right _ hi

theorem Tracked.waiting_after (h : Tracked t jobs log s) (hnodup : s.queue.Nodup) (hcan : s.Can n d)
    (hi : i ∈ (s.after t n d).queue) : about i (log ++ [(n, d)]) = [] := by
  have hwaiting := h.waiting i (mem_queue_of_after hcan hi)
  have hne : d.job? ≠ some i := by
    intro hjob
    cases d with
    | take j =>
      cases hjob
      rw [← queue_after (t := t) hcan] at hnodup
      exact (List.nodup_append.1 hnodup).2.2 i (by simp [Deed.taken?]) i hi rfl
    | call j stage r =>
      cases hjob
      rw [h.working n i stage hcan] at hwaiting
      exact upTo_ne_nil n i stage hwaiting
    | _ => cases hjob
  rw [about_append_of_ne hne, hwaiting]

theorem Tracked.working_after (h : Tracked t jobs log s) (hcan : s.Can n d)
    (hw : (s.after t n d).workers[m]? = some (.work i stage)) : about i (log ++ [(n, d)]) = upTo m i stage := by
  rw [worker_after hcan] at hw
  split at hw
  · rename_i hm
    subst hm
    -- the worker that did this has taken the job, or has made its call before this one
    cases d with
    | look c => cases c <;> cases hw
    | take j =>
      cases hw
      rw [about_append_of_eq rfl, h.waiting i (List.mem_of_head? hcan.2)]
      rfl
    | call j before r =>
      cases r with
      | error f => cases hw
      | ok u =>
        cases before <;> cases hw <;>
        · rw [about_append_of_eq rfl, h.working m i _ hcan]
          rfl
    | _ => cases hw
  · rename_i hm
    have hworking := h.working m i stage hw
    have hne : d.job? ≠ some i := by
      refine h.job_ne hcan (hworking ▸ upTo_ne_nil m i stage) fun stage' heq => hm ?_
      exact eq_of_upTo_eq (hworking.symm.trans heq)
    rw [about_append_of_ne hne, hworking]

theorem Tracked.accounted_after (h : Tracked t jobs log s) (hcan : s.Can n d) (hi : i ∈ jobs) :
    i ∈ (s.after t n d).queue ∨ (∃ (m : Nat) (stage : Stage), (s.after t n d).workers[m]? = some (.work i stage)) ∨
    (∃ (m : Nat), about i (log ++ [(n, d)]) = wholeJob m i ∧
      ((s.after t n d).workers[m]? = some (.report (.ok (publication t i))) ∨
        .ok (publication t i) ∈ reports (log ++ [(n, d)]))) ∨
    ∃ m f, Failed (log ++ [(n, d)]) m f := by
  rcases h.accounted i hi with hq | ⟨m, stage, hw⟩ | ⟨m, hwhole, hpublished⟩ | ⟨m, f, hfailed⟩
  · rw [← queue_after (t := t) hcan, List.mem_append] at hq
    rcases hq with hq | hq
    · cases d with
      | take j =>
        cases List.mem_singleton.1 hq
        exact .inr (.inl ⟨n, .fetch, by rw [worker_after hcan, if_pos rfl]; rfl⟩)
      | _ => cases hq
    · exact .inl hq
  · by_cases hm : m = n
    · subst hm
      obtain ⟨r, rfl⟩ := hcan.eq_call hw
      have hnext := worker_after (t := t) hcan m
      rw [if_pos rfl] at hnext
      cases r with
      | error f => exact .inr (.inr (.inr ⟨m, f, i, stage, by simp⟩))
      | ok u =>
        cases stage with
        | push =>
          refine .inr (.inr (.inl ⟨m, ?_, .inl hnext⟩))
          rw [about_append_of_eq rfl, h.working m i _ hw]
          rfl
        | _ => exact .inr (.inl ⟨m, _, hnext⟩)
    · exact .inr (.inl ⟨m, stage, by rw [worker_after hcan, if_neg hm, hw]⟩)
  · have hne : d.job? ≠ some i := by
      refine h.job_ne hcan (by rw [hwhole]; simp [wholeJob]) fun stage heq => ?_
      exact upTo_ne_wholeJob n m i stage (heq.symm.trans hwhole)
    refine .inr (.inr (.inl ⟨m, by rw [about_append_of_ne hne, hwhole], ?_⟩))
    rw [worker_after hcan, reports_append, List.mem_append]
    rcases hpublished with hw | hr
    · by_cases hm : m = n
      · subst hm
        rw [hcan.eq_report hw]
        exact .inr (.inr (by simp [Deed.reported?]))
      · rw [if_neg hm]
        exact .inl hw
    · exact .inr (.inl hr)
  · exact .inr (.inr (.inr ⟨m, f, hfailed.mono (by simp)⟩))

theorem Sound.nodup_queue (h : Sound t jobs log s) (hnodup : jobs.Nodup) : s.queue.Nodup := by
  rw [← h.taken] at hnodup
  exact (List.nodup_append.1 hnodup).2.1

/-- **Every deed keeps a log tracked.** -/
theorem Tracked.after (h : Tracked t jobs log s) (hnodup : s.queue.Nodup) (hcan : s.Can n d) :
    Tracked t jobs (log ++ [(n, d)]) (s.after t n d) where
  waiting _ hi := h.waiting_after hnodup hcan hi
  working _ _ _ hw := h.working_after hcan hw
  accounted _ hi := h.accounted_after hcan hi

theorem Logged.tracked (h : Logged t (start jobs concurrency) es log s) (hnodup : jobs.Nodup) :
    Tracked t jobs log s := by
  have hboth : Sound t jobs ([] ++ log) s ∧ Tracked t jobs ([] ++ log) s :=
    Logged.invariant (fun log s => Sound t jobs log s ∧ Tracked t jobs log s)
      (fun h hcan => ⟨h.1.after hcan, h.2.after (h.1.nodup_queue hnodup) hcan⟩) h
      ⟨sound_start t jobs concurrency, tracked_start t jobs concurrency⟩
  exact hboth.2

end Fleet.Publish
