/-
The fault that a failed publishing run reports.

A worker whose job failed raises the abort token before it reports. A call that is ended by that token fails with
`cancelled`, and its worker may report first: then the run reports `cancelled`, not the fault that ended it.
- `Obedient`: calls that are given the token fail with `cancelled` only once it is raised.
- `fault_of_course`: the fault is that of a call that failed, and it is `cancelled` just if the log is `Overtaken`.
- `exists_overtaken`: with two workers or more, one of them can overtake another.
- `fault_of_publish`: both together.
-/
import Fleet.Proofs.Lists
import Fleet.Proofs.Publish.Outcome

namespace Fleet.Publish

open Dialogue

variable {t : Target} {s s' : State} {n m : Nat} {d : Deed} {es asked : List Asked} {log : List (Nat × Deed)}
  {jobs : List ImageJob} {concurrency : Nat} {r : Except Fault Images} {f : Fault}

/-- the call of this stage is given the abort token, and so can be ended by it -/
def Stage.givenToken : Stage → Bool
  | .fetch | .push => true
  | .repository | .tag => false

/-- a call that is given the abort token fails with `cancelled` only once the token is raised -/
def Obedient (log : List (Nat × Deed)) : Prop :=
  ∀ before n j stage after, stage.givenToken = true → log = before ++ (n, .call j stage (.error .cancelled)) :: after →
    ∃ m f, (m, .abort f) ∈ before

/-- a call that is not given the token failed with `cancelled` all the same -/
def Unprompted (log : List (Nat × Deed)) : Prop :=
  ∃ n j stage, stage.givenToken = false ∧ (n, .call j stage (.error .cancelled)) ∈ log

/-- the first fault to arrive is `cancelled`; another worker has raised the abort token for a fault of its own, which it
has yet to report (or a call was `cancelled` of itself) -/
def Overtaken (log : List (Nat × Deed)) : Prop :=
  ∃ before n after, log = before ++ (n, .report (.error .cancelled)) :: after ∧ (∀ g, .error g ∉ reports before) ∧
    ((∃ m f, (m, .abort f) ∈ before ∧ f ≠ .cancelled ∧ m ≠ n) ∨ Unprompted before)

theorem Unprompted.mono {log' : List (Nat × Deed)} (h : log ⊆ log') (hlog : Unprompted log) : Unprompted log' := by
  obtain ⟨n, j, stage, htoken, hmem⟩ := hlog
  exact ⟨n, j, stage, htoken, h hmem⟩

/-! ## Cutting a log at a deed -/

/-- where a deed stands in a log, its worker was about to do it -/
theorem Logged.at_deed {before after : List (Nat × Deed)} (h : Logged t (start jobs concurrency) asked log s)
    (hlog : log = before ++ (n, d) :: after) : ∃ s₁, Sound t jobs before s₁ ∧ s₁.Can n d ∧
      s₁.workers.length = workerCount concurrency jobs.length := by
  rw [hlog] at h
  obtain ⟨s₁, es₁, es₂, _, hbefore, hafter⟩ := h.split
  refine ⟨s₁, hbefore.sound, ?_, ?_⟩
  · cases hafter
    assumption
  · rw [hbefore.length_workers]
    exact List.length_replicate

theorem Logged.lt_workerCount (h : Logged t (start jobs concurrency) asked log s) (hd : (n, d) ∈ log) :
    n < workerCount concurrency jobs.length := by
  obtain ⟨before, after, hlog⟩ := List.append_of_mem hd
  obtain ⟨s₁, _, hcan, hlen⟩ := h.at_deed hlog
  obtain ⟨w, hw, _⟩ := hcan.exists_worker
  exact hlen ▸ (List.getElem?_eq_some_iff.1 hw).1

/-- a report stands in the log where it stands among the reports -/
theorem exists_report {x : Except Fault Published} {before after : List (Except Fault Published)}
    (h : reports log = before ++ x :: after) :
    ∃ log₁ n log₂, log = log₁ ++ (n, .report x) :: log₂ ∧ reports log₁ = before := by
  obtain ⟨log₁, rest, rfl, hbefore, hrest⟩ := List.filterMap_eq_append_iff.1 h
  obtain ⟨silent, ⟨n, d⟩, log₂, rfl, hsilent, hreport, _⟩ := List.filterMap_eq_cons_iff.1 hrest
  have hd : d = .report x := by cases d <;> cases hreport; rfl
  refine ⟨log₁ ++ silent, n, log₂, by rw [hd, List.append_assoc], ?_⟩
  rw [reports, List.filterMap_append, hbefore, List.filterMap_eq_nil_iff.2 hsilent, List.append_nil]

def Deed.isAbort : Deed → Bool
  | .abort _ => true
  | _ => false

/-- the first abort is for a fault that is not `cancelled`, or for a call that was `cancelled` of itself -/
theorem exists_first_abort (h : Logged t (start jobs concurrency) asked log s) (hobedient : Obedient log)
    {before after : List (Nat × Deed)} (hlog : log = before ++ after) (hab : (n, .abort f) ∈ before) :
    (∃ m g, (m, .abort g) ∈ before ∧ g ≠ .cancelled) ∨ Unprompted before := by
  obtain ⟨⟨m, d⟩, hfind⟩ : ∃ e, before.find? (fun e => e.2.isAbort) = some e := by
    have : (before.find? fun e => e.2.isAbort).isSome := List.find?_isSome.2 ⟨_, hab, rfl⟩
    exact Option.isSome_iff_exists.1 this
  obtain ⟨hisAbort, pre, post, rfl, hnone⟩ := List.find?_eq_some_iff_append.1 hfind
  obtain ⟨g, rfl⟩ : ∃ g, d = .abort g := by cases d <;> cases hisAbort; exact ⟨_, rfl⟩
  by_cases hg : g = .cancelled
  swap
  · exact .inl ⟨m, g, by simp, hg⟩
  subst hg
  have hcut : log = pre ++ (m, .abort .cancelled) :: (post ++ after) := by rw [hlog, List.append_assoc]; rfl
  obtain ⟨s₁, hsound, hcan, _⟩ := h.at_deed hcut
  obtain ⟨j, stage, hmem⟩ : Failed pre m .cancelled := hsound.grounded m _ hcan
  cases htoken : stage.givenToken with
  | false => exact .inr ⟨m, j, stage, htoken, List.mem_append_left _ hmem⟩
  | true =>
    -- its call was ended by the token before the token was raised, which no call is
    obtain ⟨pre₁, pre₂, rfl⟩ := List.append_of_mem hmem
    obtain ⟨k, g, hearlier⟩ := hobedient pre₁ m j stage _ htoken (by rw [hcut, List.append_assoc]; rfl)
    have := hnone _ (List.mem_append_left _ hearlier)
    simp [Deed.isAbort] at this

/-! ## The fault that is reported -/

/-- If a call failed, so does the run, with the fault of a call that failed. If calls obey the abort token, this is
`cancelled` just if a worker was overtaken. -/
theorem fault_of_course (h : Course t jobs concurrency log es r) (hobedient : Obedient log)
    (hfailed : ∃ n f, Failed log n f) :
    ∃ f, r = .error f ∧ (∃ n, Failed log n f) ∧ (f = .cancelled ↔ Overtaken log) := by
  obtain ⟨asked, s, rest, rfl, hlogged, hready, houtcome⟩ := h
  have hclosed := hlogged.closed hready
  obtain ⟨n₀, f₀, hf₀⟩ := hfailed
  have hsome : firstFault (reports log) ≠ none := fun hnone =>
    firstFault_eq_none_iff.1 hnone f₀ (hclosed.reported_of_failed hf₀)
  rcases play_outcome_iff.1 houtcome with ⟨f, hfirst, _, rfl⟩ | ⟨hnone, _⟩
  swap
  · rw [hclosed.arrived] at hnone
    exact absurd hnone hsome
  rw [hclosed.arrived] at hfirst
  obtain ⟨arrived, later, hreports, hearlier⟩ := firstFault_eq_some_iff.1 hfirst
  obtain ⟨before, n, after, hlog, rfl⟩ := exists_report hreports
  obtain ⟨s₁, hsound, hcan, _⟩ := hlogged.at_deed hlog
  obtain ⟨hab, hreal⟩ : (n, Deed.abort f) ∈ before ∧ Failed before n f := hsound.grounded n _ hcan
  have hsub : before ⊆ log := hlog ▸ List.subset_append_left _ _
  refine ⟨f, rfl, ⟨n, hreal.mono hsub⟩, ?_, ?_⟩
  · rintro rfl
    refine ⟨before, n, after, hlog, hearlier, ?_⟩
    refine (exists_first_abort hlogged hobedient hlog hab).imp_left fun ⟨m, g, hmem, hg⟩ => ⟨m, g, hmem, hg, ?_⟩
    rintro rfl
    -- a worker that raised the token for `g` stands at the report of `g`
    rcases hsound.aborting m g hmem with hw | hr
    · cases hw.symm.trans hcan
      exact hg rfl
    · exact hearlier g hr
  · rintro ⟨before', n', after', hlog', hnone, _⟩
    have hfirst' : firstFault (reports log) = some .cancelled := by
      refine firstFault_eq_some_iff.2 ⟨reports before', reports after', ?_, hnone⟩
      rw [hlog']
      simp [reports, Deed.reported?]
    rw [hfirst] at hfirst'
    exact Option.some.inj hfirst'

/-- a single worker is not overtaken -/
theorem not_overtaken_of_one_worker (h : Course t jobs concurrency log es r)
    (hone : workerCount concurrency jobs.length = 1) (hprompted : ¬ Unprompted log) : ¬ Overtaken log := by
  obtain ⟨asked, s, rest, rfl, hlogged, _, _⟩ := h
  rintro ⟨before, n, after, hlog, _, ⟨m, f, hmem, _, hne⟩ | hunprompted⟩
  · have hn : n < 1 := hone ▸ hlogged.lt_workerCount (hlog ▸ List.mem_append_right _ List.mem_cons_self)
    have hm : m < 1 := hone ▸ hlogged.lt_workerCount (hlog ▸ List.mem_append_left _ hmem)
    omega
  · exact hprompted (hunprompted.mono (hlog ▸ List.subset_append_left _ _))

/-! ## A worker that is overtaken -/

/-- Two workers take a job each. The call of the first fails, and it raises the abort token. The token ends the call of
the second, which reports before the first does. -/
def overtaking (x y : ImageJob) (f : Fault) : List (Nat × Deed) :=
  [(0, .look false), (0, .take x), (1, .look false), (1, .take y), (0, .call x .fetch (.error f)), (0, .abort f),
    (1, .call y .fetch (.error .cancelled)), (1, .abort .cancelled), (1, .report (.error .cancelled)),
    (0, .report (.error f))]

/-- workers halt one after the other -/
def halting (n count : Nat) : List (Nat × Deed) := (List.range' n count).map fun m => (m, .halt)

theorem possible_overtaking (t : Target) (x y : ImageJob) (f : Fault) (others : List Worker) (queue : List ImageJob) :
    Possible t { workers := .check :: .check :: others, queue := x :: y :: queue } (overtaking x y f)
      { workers := .check :: .check :: others, queue, aborted := true, results := [.error f, .error .cancelled] } :=
  ⟨⟨rfl, rfl⟩, ⟨rfl, rfl⟩, ⟨rfl, rfl⟩, ⟨rfl, rfl⟩, rfl, rfl, rfl, rfl, rfl, rfl, rfl⟩

/-- once the token is raised, workers that look at it come to their end -/
theorem possible_halting (hab : s.aborted = true) (count : Nat) (done : List Worker)
    (hworkers : s.workers = done ++ List.replicate count .check) :
    Possible t s (halting done.length count) { s with workers := done ++ List.replicate count .finished } := by
  induction count generalizing s done with
  | zero =>
    change _ = s
    rw [List.replicate_zero] at hworkers ⊢
    rw [← hworkers]
  | succ count ih =>
    have hcheck : s.workers[done.length]? = some .check := by simp [hworkers, List.replicate_succ]
    have hput : (s.put done.length .finished).workers = (done ++ [.finished]) ++ List.replicate count .check := by
      simp [State.put, hworkers, List.replicate_succ]
    have := ih (s := s.put done.length .finished) hab _ hput
    rw [List.length_append, List.append_assoc] at this
    exact ⟨⟨hcheck, hab⟩, this⟩

/-- calls that come after an abort are obedient -/
theorem obedient_of_abort {log₁ log₂ : List (Nat × Deed)} (hab : (m, .abort f) ∈ log₁)
    (hnone : ∀ n j stage, (n, .call j stage (.error .cancelled)) ∉ log₁) : Obedient (log₁ ++ log₂) := by
  intro before n j stage after _ hlog
  refine ⟨m, f, ?_⟩
  rcases cut_append hlog with ⟨more, rfl, -⟩ | ⟨more, rfl, -⟩
  · exact absurd (List.mem_append_right before List.mem_cons_self) (hnone n j stage)
  · exact List.mem_append_left more hab

theorem obedient_overtaking (x y : ImageJob) (n count : Nat) (hf : f ≠ .cancelled) :
    Obedient (overtaking x y f ++ halting n count) := by
  have hcut : overtaking x y f ++ halting n count =
      (overtaking x y f).take 6 ++ ((overtaking x y f).drop 6 ++ halting n count) := rfl
  rw [hcut]
  refine obedient_of_abort (m := 0) (f := f) (by simp [overtaking]) fun n j stage hmem => ?_
  have : n = 0 ∧ x = j ∧ stage = .fetch ∧ f = .cancelled := by simpa [overtaking, eq_comm] using hmem
  exact hf this.2.2.2

theorem possible_overtaken (t : Target) (x y : ImageJob) (rest : List ImageJob) (f : Fault) {others : Nat}
    (hothers : workerCount concurrency (x :: y :: rest).length = others + 2) :
    Possible t (start (x :: y :: rest) concurrency) (overtaking x y f ++ halting 0 (others + 2))
      { workers := List.replicate (others + 2) .finished, queue := rest, aborted := true,
        results := [.error f, .error .cancelled] } := by
  have hstart : start (x :: y :: rest) concurrency =
      { workers := .check :: .check :: List.replicate others .check, queue := x :: y :: rest } := by
    rw [start, hothers]
    rfl
  rw [hstart]
  exact (possible_overtaking t x y f _ rest).append (possible_halting rfl (others + 2) [] rfl)

/-- **Two workers are enough to be overtaken.** -/
theorem exists_overtaken (t : Target) (x y : ImageJob) (rest : List ImageJob) (hf : f ≠ .cancelled)
    (hconcurrency : 2 ≤ concurrency) : ∃ log es, Course t (x :: y :: rest) concurrency log es (.error .cancelled) ∧
      Obedient log ∧ ¬ Unprompted log ∧ (⟨.cancelled, true⟩ : Asked) ∉ es ∧ Failed log 0 f := by
  obtain ⟨others, hothers⟩ : ∃ others, workerCount concurrency (x :: y :: rest).length = others + 2 :=
    Nat.exists_eq_add_of_le' (by simp only [workerCount, List.length_cons]; omega)
  obtain ⟨asked, hlogged⟩ := exists_logged_of_possible (possible_overtaken t x y rest f hothers)
  have hcourse : Course t (x :: y :: rest) concurrency (overtaking x y f ++ halting 0 (others + 2)) asked
      (.error .cancelled) := by
    refine ⟨asked, _, [], (List.append_nil _).symm, hlogged, ?_, ?_⟩
    · exact ready_eq_nil_iff.2 fun w hw => (List.mem_replicate.1 hw).2
    · exact play_outcome_iff.2 (.inl ⟨.cancelled, rfl, rfl, rfl⟩)
  refine ⟨_, asked, hcourse, obedient_overtaking x y _ _ hf, ?_, ?_, ?_⟩
  · rintro ⟨n, j, stage, htoken, hmem⟩
    have hcalls : (n = 0 ∧ j = x ∧ stage = .fetch ∧ .cancelled = f) ∨ n = 1 ∧ j = y ∧ stage = .fetch := by
      simpa [overtaking, halting] using hmem
    rcases hcalls with ⟨_, _, rfl, _⟩ | ⟨_, _, rfl⟩ <;> cases htoken
  · intro hmem
    obtain ⟨n, hn⟩ := hlogged.look_of_mem hmem
    simp [overtaking, halting] at hn
  · exact ⟨x, .fetch, by simp [overtaking]⟩

/-! ## When the fault can be relied on -/

theorem exists_jobs_of_workers (h : 1 < workerCount concurrency jobs.length) :
    2 ≤ concurrency ∧ ∃ x y rest, jobs = x :: y :: rest := by
  rw [workerCount] at h
  rcases jobs with _ | ⟨x, _ | ⟨y, rest⟩⟩
  · simp at h
  · simp at h
  · exact ⟨by omega, x, y, rest, rfl⟩

/-- **Which fault a failed run reports.** If a call failed, so does the run, with the fault of a call that failed. It is
`cancelled` just if a worker was overtaken. Even if the caller does not cancel, and no call is cancelled of itself, this
happens in some run just if there is more than one worker. -/
theorem fault_of_publish (t : Target) (jobs : List ImageJob) (concurrency : Nat) :
    (∀ log es r, Course t jobs concurrency log es r → Obedient log → (∃ n f, Failed log n f) →
      ∃ f, r = .error f ∧ (∃ n, Failed log n f) ∧ (f = .cancelled ↔ Overtaken log)) ∧
    ((∃ log es, Course t jobs concurrency log es (.error .cancelled) ∧ Obedient log ∧ ¬ Unprompted log ∧
        (⟨.cancelled, true⟩ : Asked) ∉ es ∧ ∃ n f, Failed log n f ∧ f ≠ .cancelled) ↔
      1 < workerCount concurrency jobs.length) := by
  refine ⟨fun log es r h hobedient hfailed => fault_of_course h hobedient hfailed, ?_, fun hworkers => ?_⟩
  · rintro ⟨log, es, hcourse, hobedient, hprompted, _, n, f, hfailed, _⟩
    by_contra hfew
    have hone : workerCount concurrency jobs.length = 1 := le_antisymm (by omega) (Nat.le_max_left 1 _)
    obtain ⟨g, hg, _, hiff⟩ := fault_of_course hcourse hobedient ⟨n, f, hfailed⟩
    cases hg
    exact not_overtaken_of_one_worker hcourse hone hprompted (hiff.1 rfl)
  · obtain ⟨hconcurrency, x, y, rest, rfl⟩ := exists_jobs_of_workers hworkers
    have hne : Fault.tool .docker "exit status 1" ≠ .cancelled := by simp
    obtain ⟨log, es, hcourse, hobedient, hprompted, htoken, hfailed⟩ := exists_overtaken t x y rest hne hconcurrency
    exact ⟨log, es, hcourse, hobedient, hprompted, htoken, 0, _, hfailed, hne⟩

/-- a run that publishes two images at once, and is overtaken -/
theorem shop_is_overtaken : ∃ log es, Course shopTarget [web, database] 2 log es (.error .cancelled) ∧
    Overtaken log := by
  obtain ⟨log, es, hcourse, hobedient, _, _, hfailed⟩ :=
    exists_overtaken (f := .tool .docker "boom") shopTarget web database [] (by simp) le_rfl
  obtain ⟨f, hf, _, hiff⟩ := (fault_of_publish shopTarget [web, database] 2).1 log es _ hcourse hobedient
    ⟨0, _, hfailed⟩
  cases hf
  exact ⟨log, es, hcourse, hiff.1 rfl⟩

/-- so `cancelled` is reported though nobody cancelled, and a job failed with another fault -/
theorem cancelled_is_reported : ¬ ∀ log es r, Course shopTarget [web, database] 2 log es r → Obedient log →
    ¬ Unprompted log → (⟨.cancelled, true⟩ : Asked) ∉ es → (∃ n f, Failed log n f) →
    ∃ n f, r = .error f ∧ f ≠ .cancelled ∧ Failed log n f := by
  intro hall
  obtain ⟨log, es, hcourse, hobedient, hprompted, htoken, hfailed⟩ :=
    exists_overtaken (f := .tool .docker "boom") shopTarget web database [] (by simp) le_rfl
  obtain ⟨_, f, hf, hne, _⟩ := hall log es _ hcourse hobedient hprompted htoken ⟨0, _, hfailed⟩
  cases hf
  exact hne rfl

end Fleet.Publish
