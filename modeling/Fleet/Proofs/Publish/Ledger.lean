/-
What a log says of the state that it leads to.

A log is `Sound` for a state if the jobs taken and the queue are all jobs; results are the reports; each job taken is
reported or held by a worker; every fault that is held or reported comes from a call that failed, and every call that
failed leads to one.
- `Sound.after`: every deed keeps a log sound, by one lemma for each part.
- `Logged.sound`: so every log of a run is sound for the state that it leads to.
-/
import Fleet.Proofs.Publish.Course

namespace Fleet.Publish

variable {t : Target} {s s' : State} {n m : Nat} {w : Worker} {d : Deed} {es : List Asked}
  {log log' : List (Nat × Deed)} {jobs : List ImageJob} {concurrency : Nat} {j : ImageJob} {f : Fault}

/-! ## Reading a log -/

def Deed.taken? : Deed → Option ImageJob
  | .take j => some j
  | _ => none

/-- the jobs that were taken, in order -/
def takes (log : List (Nat × Deed)) : List ImageJob := log.filterMap fun e => e.2.taken?

def Deed.reported? : Deed → Option (Except Fault Published)
  | .report r => some r
  | _ => none

/-- the results, in order of arrival -/
def reports (log : List (Nat × Deed)) : List (Except Fault Published) := log.filterMap fun e => e.2.reported?

/-- a call about a job failed -/
def Failed (log : List (Nat × Deed)) (n : Nat) (f : Fault) : Prop := ∃ j stage, (n, .call j stage (.error f)) ∈ log

/-- an image's name and reference once its job is done -/
def publication (t : Target) (j : ImageJob) : Published := (j.name, j.target t.registry t.account.appName)

theorem takes_append (log : List (Nat × Deed)) (n : Nat) (d : Deed) :
    takes (log ++ [(n, d)]) = takes log ++ d.taken?.toList := by
  cases d <;> simp [takes, Deed.taken?]

theorem reports_append (log : List (Nat × Deed)) (n : Nat) (d : Deed) :
    reports (log ++ [(n, d)]) = reports log ++ d.reported?.toList := by
  cases d <;> simp [reports, Deed.reported?]

theorem Failed.mono (h : log ⊆ log') (hf : Failed log n f) : Failed log' n f := by
  obtain ⟨j, stage, hmem⟩ := hf
  exact ⟨j, stage, h hmem⟩

/-! ## Jobs that are held -/

/-- a worker holds a job from when it takes it until it reports -/
def Worker.held : Worker → Nat
  | .work _ _ | .abort _ | .report _ => 1
  | .check | .take | .finished => 0

/-- how many jobs are held -/
def State.inFlight (s : State) : Nat := (s.workers.map Worker.held).sum

theorem inFlight_le (s : State) : s.inFlight ≤ s.workers.length := by
  have hle : ∀ x ∈ s.workers.map Worker.held, x ≤ 1 := by
    intro x hx
    obtain ⟨w, _, rfl⟩ := List.mem_map.1 hx
    cases w <;> simp [Worker.held]
  simpa [State.inFlight] using List.sum_le_card_nsmul _ 1 hle

/-! ## Sound logs -/

/-- what a result of worker `n` rests on -/
def Grounds (t : Target) (log : List (Nat × Deed)) (n : Nat) : Except Fault Published → Prop
  | .ok p => ∃ j ∈ takes log, p = publication t j
  | .error f => (n, .abort f) ∈ log ∧ Failed log n f

/-- what the state of worker `n` rests on -/
def Worker.Grounded (t : Target) (log : List (Nat × Deed)) (n : Nat) : Worker → Prop
  | .work j _ => j ∈ takes log
  | .abort f => Failed log n f
  | .report r => Grounds t log n r
  | _ => True

theorem takes_subset (h : log ⊆ log') : takes log ⊆ takes log' := by
  intro j hj
  obtain ⟨e, he, hj⟩ := List.mem_filterMap.1 hj
  exact List.mem_filterMap.2 ⟨e, h he, hj⟩

theorem Grounds.mono {r : Except Fault Published} (h : log ⊆ log') (hr : Grounds t log n r) : Grounds t log' n r := by
  cases r with
  | ok p =>
    obtain ⟨j, hj, rfl⟩ := hr
    exact ⟨j, takes_subset h hj, rfl⟩
  | error f => exact ⟨h hr.1, hr.2.mono h⟩

theorem Worker.Grounded.mono (h : log ⊆ log') (hw : w.Grounded t log n) : w.Grounded t log' n := by
  cases w with
  | work j stage => exact takes_subset h hw
  | abort f => exact Failed.mono h hw
  | report r => exact Grounds.mono h hw
  | _ => trivial

structure Sound (t : Target) (jobs : List ImageJob) (log : List (Nat × Deed)) (s : State) : Prop where
  taken : takes log ++ s.queue = jobs
  arrived : s.results.reverse = reports log
  held : (takes log).length = (reports log).length + s.inFlight
  /-- workers act on what they have found -/
  grounded : ∀ (n : Nat) (w : Worker), s.workers[n]? = some w → w.Grounded t log n
  /-- and report nothing else -/
  reported : ∀ r ∈ reports log, ∃ n, Grounds t log n r
  /-- no failure is passed over -/
  failing : ∀ (n : Nat) (f : Fault), Failed log n f →
    s.workers[n]? = some (.abort f) ∨ s.workers[n]? = some (.report (.error f)) ∨ .error f ∈ reports log
  aborting : ∀ (n : Nat) (f : Fault), (n, .abort f) ∈ log →
    s.workers[n]? = some (.report (.error f)) ∨ .error f ∈ reports log
  /-- an abort has its failure -/
  raised : ∀ (n : Nat) (f : Fault), (n, .abort f) ∈ log → Failed log n f
  aborted : s.aborted = true → ∃ n f, (n, .abort f) ∈ log
  /-- workers stop for a reason -/
  stopped : ∀ (n : Nat), s.workers[n]? = some .finished → s.queue = [] ∨ s.aborted = true ∨ ∃ m, (m, .look true) ∈ log

theorem sound_start (t : Target) (jobs : List ImageJob) (concurrency : Nat) :
    Sound t jobs [] (start jobs concurrency) := by
  have hworkers : ∀ (n : Nat) (w : Worker), (start jobs concurrency).workers[n]? = some w → w = .check := by
    intro n w hw
    exact (List.mem_replicate.1 (List.mem_of_getElem? hw)).2
  refine ⟨rfl, rfl, ?_, ?_, ?_, ?_, ?_, ?_, ?_, ?_⟩
  · simp [takes, reports, State.inFlight, start, Worker.held]
  · intro n w hw
    rw [hworkers n w hw]
    trivial
  · simp [reports]
  · rintro n f ⟨j, stage, hmem⟩
    cases hmem
  · intro n f hmem
    cases hmem
  · intro n f hmem
    cases hmem
  · intro hab
    cases hab
  · intro n hn
    cases hworkers n _ hn

/-! ## Every deed keeps a log sound -/

theorem State.Can.eq_call {stage : Stage} (hcan : s.Can n d) (hw : s.workers[n]? = some (.work j stage)) :
    ∃ r, d = .call j stage r := by
  cases d <;> simp_all [State.Can]

theorem State.Can.eq_abort (hcan : s.Can n d) (hw : s.workers[n]? = some (.abort f)) : d = .abort f := by
  cases d <;> simp_all [State.Can]

theorem State.Can.eq_report {r : Except Fault Published} (hcan : s.Can n d)
    (hw : s.workers[n]? = some (.report r)) : d = .report r := by
  cases d <;> simp_all [State.Can]

/-- only taking a job changes the queue, and it takes the first one -/
theorem queue_after (hcan : s.Can n d) : d.taken?.toList ++ (s.after t n d).queue = s.queue := by
  cases d with
  | take j =>
    obtain ⟨rest, hq⟩ := List.head?_eq_some_iff.1 hcan.2
    simp [Deed.taken?, State.after, State.put, hq]
  | _ => rfl

theorem results_after (t : Target) (s : State) (n : Nat) (d : Deed) :
    (s.after t n d).results.reverse = s.results.reverse ++ d.reported?.toList := by
  cases d <;> simp [Deed.reported?, State.after, State.put]

theorem inFlight_after (hcan : s.Can n d) :
    (s.after t n d).inFlight + d.reported?.toList.length = s.inFlight + d.taken?.toList.length := by
  have hset {w : Worker} (hw : s.workers[n]? = some w) :
      (s.after t n d).inFlight + w.held = s.inFlight + (d.next t).held := by
    have := sum_map_set Worker.held (d.next t) hw
    simpa only [State.inFlight, after_workers] using this
  cases d with
  | halt => simpa [Worker.held, Deed.next, Deed.reported?, Deed.taken?] using hset hcan.1
  | look c => cases c <;> simpa [Worker.held, Deed.next, Deed.reported?, Deed.taken?] using hset hcan.1
  | take j => simpa [Worker.held, Deed.next, Deed.reported?, Deed.taken?] using hset hcan.1
  | leave => simpa [Worker.held, Deed.next, Deed.reported?, Deed.taken?] using hset hcan.1
  | call j stage r =>
    have hheld : (afterCall t j stage r).held = 1 := by cases r <;> cases stage <;> rfl
    have hwork : (Worker.work j stage).held = 1 := rfl
    have := hset hcan
    simp only [Deed.next, hheld, hwork, Deed.reported?, Deed.taken?, Option.toList_none, List.length_nil] at this ⊢
    omega
  | abort f => simpa [Worker.held, Deed.next, Deed.reported?, Deed.taken?] using hset hcan
  | report r => simpa [Worker.held, Deed.next, Deed.reported?, Deed.taken?] using hset hcan

theorem Sound.taken_after (h : Sound t jobs log s) (hcan : s.Can n d) :
    takes (log ++ [(n, d)]) ++ (s.after t n d).queue = jobs := by
  rw [takes_append, List.append_assoc, queue_after hcan, h.taken]

theorem Sound.held_after (h : Sound t jobs log s) (hcan : s.Can n d) :
    (takes (log ++ [(n, d)])).length = (reports (log ++ [(n, d)])).length + (s.after t n d).inFlight := by
  have hflight := inFlight_after (t := t) hcan
  have hheld := h.held
  rw [takes_append, reports_append, List.length_append, List.length_append]
  omega

/-- a worker knows what its deed has brought -/
theorem Sound.grounded_next (h : Sound t jobs log s) (hcan : s.Can n d) :
    (d.next t).Grounded t (log ++ [(n, d)]) n := by
  cases d with
  | look c => cases c <;> trivial
  | take j =>
    change j ∈ takes (log ++ [(n, .take j)])
    rw [takes_append]
    simp [Deed.taken?]
  | call j stage r =>
    have hj : j ∈ takes (log ++ [(n, .call j stage r)]) := by
      rw [takes_append]
      exact List.mem_append_left _ (h.grounded n _ hcan)
    cases r with
    | error f => exact ⟨j, stage, by simp⟩
    | ok u =>
      cases stage with
      | push => exact ⟨j, hj, rfl⟩
      | _ => exact hj
  | abort f => exact ⟨by simp, (h.grounded n _ hcan).mono (by simp)⟩
  | _ => trivial

theorem Sound.grounded_after (h : Sound t jobs log s) (hcan : s.Can n d) (m : Nat) (w : Worker)
    (hw : (s.after t n d).workers[m]? = some w) : w.Grounded t (log ++ [(n, d)]) m := by
  rw [worker_after hcan] at hw
  split at hw
  · rename_i hm
    cases hw
    rw [hm]
    exact h.grounded_next hcan
  · exact (h.grounded m w hw).mono (by simp)

theorem Sound.reported_after (h : Sound t jobs log s) (hcan : s.Can n d) {r : Except Fault Published}
    (hr : r ∈ reports (log ++ [(n, d)])) : ∃ m, Grounds t (log ++ [(n, d)]) m r := by
  rw [reports_append, List.mem_append] at hr
  rcases hr with hr | hr
  · obtain ⟨m, hgrounds⟩ := h.reported r hr
    exact ⟨m, hgrounds.mono (by simp)⟩
  · cases d with
    | report r' =>
      simp only [Deed.reported?, Option.toList_some, List.mem_singleton] at hr
      subst hr
      exact ⟨n, Grounds.mono (by simp) (h.grounded n _ hcan)⟩
    | _ => cases hr

/-- a fault that is about to be reported is still about to be reported, or is among the reports -/
theorem report_pending (hcan : s.Can n d)
    (h : s.workers[m]? = some (.report (.error f)) ∨ .error f ∈ reports log) :
    (s.after t n d).workers[m]? = some (.report (.error f)) ∨ .error f ∈ reports (log ++ [(n, d)]) := by
  rw [worker_after hcan, reports_append, List.mem_append]
  rcases h with hw | hr
  · by_cases hm : m = n
    · subst hm
      rw [hcan.eq_report hw]
      exact .inr (.inr (by simp [Deed.reported?]))
    · rw [if_neg hm]
      exact .inl hw
  · exact .inr (.inl hr)

theorem Sound.failing_after (h : Sound t jobs log s) (hcan : s.Can n d)
    (hf : Failed (log ++ [(n, d)]) m f) :
    (s.after t n d).workers[m]? = some (.abort f) ∨ (s.after t n d).workers[m]? = some (.report (.error f)) ∨
      .error f ∈ reports (log ++ [(n, d)]) := by
  obtain ⟨j, stage, hmem⟩ := hf
  rcases List.mem_append.1 hmem with hmem | hmem
  · rcases h.failing m f ⟨j, stage, hmem⟩ with hw | hpending
    · by_cases hm : m = n
      · subst hm
        cases hcan.eq_abort hw
        refine .inr (.inl ?_)
        rw [worker_after hcan, if_pos rfl]
        rfl
      · exact .inl (by rw [worker_after hcan, if_neg hm, hw])
    · exact .inr (report_pending hcan hpending)
  · cases List.mem_singleton.1 hmem
    refine .inl ?_
    rw [worker_after hcan, if_pos rfl]
    rfl

theorem Sound.aborting_after (h : Sound t jobs log s) (hcan : s.Can n d) (hf : (m, .abort f) ∈ log ++ [(n, d)]) :
    (s.after t n d).workers[m]? = some (.report (.error f)) ∨ .error f ∈ reports (log ++ [(n, d)]) := by
  rcases List.mem_append.1 hf with hf | hf
  · exact report_pending hcan (h.aborting m f hf)
  · cases List.mem_singleton.1 hf
    refine .inl ?_
    rw [worker_after hcan, if_pos rfl]
    rfl

theorem Sound.raised_after (h : Sound t jobs log s) (hcan : s.Can n d) (hf : (m, .abort f) ∈ log ++ [(n, d)]) :
    Failed (log ++ [(n, d)]) m f := by
  rcases List.mem_append.1 hf with hf | hf
  · exact (h.raised m f hf).mono (by simp)
  · cases List.mem_singleton.1 hf
    exact Failed.mono (List.subset_append_left _ _) (h.grounded n _ hcan)

theorem Sound.aborted_after (h : Sound t jobs log s) (hab : (s.after t n d).aborted = true) :
    ∃ m f, (m, .abort f) ∈ log ++ [(n, d)] := by
  cases d with
  | abort f => exact ⟨n, f, by simp⟩
  | _ =>
    obtain ⟨m, f, hf⟩ := h.aborted hab
    exact ⟨m, f, List.mem_append_left _ hf⟩

theorem Sound.stopped_after (h : Sound t jobs log s) (hcan : s.Can n d)
    (hw : (s.after t n d).workers[m]? = some .finished) :
    (s.after t n d).queue = [] ∨ (s.after t n d).aborted = true ∨ ∃ k, (k, .look true) ∈ log ++ [(n, d)] := by
  have hqueue (hq : s.queue = []) : (s.after t n d).queue = [] := by
    have := queue_after (t := t) hcan
    rw [hq] at this
    exact (List.append_eq_nil_iff.1 this).2
  rw [worker_after hcan] at hw
  split at hw
  · cases d with
    | halt => exact .inr (.inl hcan.2)
    | look c =>
      cases c with
      | true => exact .inr (.inr ⟨n, by simp⟩)
      | false => cases hw
    | leave => exact .inl (hqueue hcan.2)
    | call j stage r => cases r <;> cases stage <;> cases hw
    | _ => cases hw
  · rcases h.stopped m hw with hq | hab | ⟨k, hk⟩
    · exact .inl (hqueue hq)
    · refine .inr (.inl ?_)
      cases d <;> first | exact hab | rfl
    · exact .inr (.inr ⟨k, List.mem_append_left _ hk⟩)

/-- **Every deed keeps a log sound.** -/
theorem Sound.after (h : Sound t jobs log s) (hcan : s.Can n d) : Sound t jobs (log ++ [(n, d)]) (s.after t n d) where
  taken := h.taken_after hcan
  arrived := by rw [results_after, reports_append, h.arrived]
  held := h.held_after hcan
  grounded := h.grounded_after hcan
  reported _ hr := h.reported_after hcan hr
  failing _ _ hf := h.failing_after hcan hf
  aborting _ _ hf := h.aborting_after hcan hf
  raised _ _ hf := h.raised_after hcan hf
  aborted hab := h.aborted_after hab
  stopped _ hw := h.stopped_after hcan hw

theorem Logged.sound (h : Logged t (start jobs concurrency) es log s) : Sound t jobs log s :=
  Logged.invariant (Sound t jobs) (fun h hcan => h.after hcan) h (sound_start t jobs concurrency)

theorem Logged.length_workers (h : Logged t s es log s') : s'.workers.length = s.workers.length := by
  induction h with
  | nil s => rfl
  | cons hpick hcan hshown hrest ih => rw [ih, after_workers, List.length_set]

end Fleet.Publish
