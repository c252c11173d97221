/-
The course of a publishing run: what its workers did, one step after the other.

A `Deed` is one step of one worker, with what came of it. `State.Can` says which deeds are open to a worker, and
`State.after` what they leave. A `Course` of `publish` is a log of deeds that starts with all workers, ends when every
worker is finished, and shows just the questions and answers of the run.
- `exists_deed`, `Deed.play`: a step of a worker is one of its deeds, and every deed open to it is its next step.
- `exists_logged_of_possible`: every order of deeds that is possible is taken by some surroundings.
- `left_after`: every deed uses up some of what is left to do, so the run ends before its fuel does.
- `play_publish_iff`: the plays of `publish` are its courses. What is shown of all courses is shown of all
  interleavings.
-/
import Mathlib.Tactic
import Fleet.Proofs.Deploy.Pipeline

namespace Fleet.Publish

open Dialogue

variable {t : Target} {s s' : State} {n k : Nat} {w : Worker} {d : Deed} {es shown : List Asked}
  {log : List (Nat × Deed)} {jobs : List ImageJob} {concurrency : Nat}

/-! ## Deeds -/

/-- what a worker does in one step -/
inductive Deed where
  /-- stop, for the abort token is raised -/
  | halt
  /-- look at the caller's token, and stop if it is cancelled -/
  | look (cancelled : Bool)
  | take (job : ImageJob)
  /-- stop, for there are no more jobs -/
  | leave
  | call (job : ImageJob) (stage : Stage) (result : Except Fault Unit)
  /-- raise the abort token for a fault -/
  | abort (fault : Fault)
  | report (result : Except Fault Published)
  deriving DecidableEq

/-- worker `n` may do this next -/
def State.Can (s : State) (n : Nat) : Deed → Prop
  | .halt => s.workers[n]? = some .check ∧ s.aborted = true
  | .look _ => s.workers[n]? = some .check ∧ s.aborted = false
  | .take j => s.workers[n]? = some .take ∧ s.queue.head? = some j
  | .leave => s.workers[n]? = some .take ∧ s.queue = []
  | .call j stage _ => s.workers[n]? = some (.work j stage)
  | .abort f => s.workers[n]? = some (.abort f)
  | .report r => s.workers[n]? = some (.report r)

/-- what a deed of worker `n` leaves -/
def State.after (t : Target) (s : State) (n : Nat) : Deed → State
  | .halt => s.put n .finished
  | .look c => s.put n (if c then .finished else .take)
  | .take j => { s with queue := s.queue.tail }.put n (.work j .fetch)
  | .leave => s.put n .finished
  | .call j stage r => s.put n (afterCall t j stage r)
  | .abort f => { s with aborted := true }.put n (.report (.error f))
  | .report r => { s with results := r :: s.results }.put n .check

/-- where a worker stands after a deed -/
def Deed.next (t : Target) : Deed → Worker
  | .halt | .leave => .finished
  | .look c => if c then .finished else .take
  | .take j => .work j .fetch
  | .call j stage r => afterCall t j stage r
  | .abort f => .report (.error f)
  | .report _ => .check

theorem after_workers (t : Target) (s : State) (n : Nat) (d : Deed) :
    (s.after t n d).workers = s.workers.set n (d.next t) := by
  cases d <;> rfl

/-- a deed asks just these questions, and got these answers -/
def Deed.Shows (t : Target) : Deed → List Asked → Prop
  | .look c, es => es = [⟨.cancelled, c⟩]
  | .call j stage r, es => ∃ a, es = [⟨.call (stageCall t j stage), a⟩] ∧ r = a.map fun _ => ()
  | _, es => es = []

theorem play_attemptCall_iff {c : Call} {r : Except Empty (Except Fault Unit)} :
    (attemptCall c).Play es r ↔ ∃ a, es = [⟨.call c, a⟩] ∧ r = .ok (a.map fun _ => ()) := by
  simp only [attemptCall, play_ask_iff, play_done_iff]
  constructor
  · rintro ⟨a, _, rfl, rfl, rfl⟩; exact ⟨a, rfl, rfl⟩
  · rintro ⟨a, rfl, rfl⟩; exact ⟨a, [], rfl, rfl, rfl⟩

/-- a step of a worker is one of its deeds -/
theorem exists_deed {r : Except Empty State} (hw : s.workers[n]? = some w) (hready : w.isFinished = false)
    (h : (step t s n w).Play es r) : ∃ d, s.Can n d ∧ d.Shows t es ∧ r = .ok (s.after t n d) := by
  cases w with
  | check =>
    simp only [step] at h
    split at h
    · rename_i hab
      obtain ⟨rfl, rfl⟩ := play_done_iff.1 h
      exact ⟨.halt, ⟨hw, hab⟩, rfl, rfl⟩
    · rename_i hab
      obtain ⟨c, _, rfl, hend⟩ := play_cancelled_bind_iff.1 h
      obtain ⟨rfl, rfl⟩ := play_done_iff.1 hend
      exact ⟨.look c, ⟨hw, by simpa using hab⟩, rfl, rfl⟩
  | take =>
    simp only [step] at h
    split at h
    · rename_i hq
      obtain ⟨rfl, rfl⟩ := play_done_iff.1 h
      exact ⟨.leave, ⟨hw, hq⟩, rfl, rfl⟩
    · rename_i j rest hq
      obtain ⟨rfl, rfl⟩ := play_done_iff.1 h
      exact ⟨.take j, ⟨hw, by rw [hq]; rfl⟩, rfl, by simp only [State.after, hq, List.tail_cons]⟩
  | work j stage =>
    rcases play_bind_iff.1 h with ⟨e, _⟩ | ⟨result, es₁, es₂, rfl, hcall, hend⟩
    · exact e.elim
    · obtain ⟨a, rfl, hresult⟩ := play_attemptCall_iff.1 hcall
      cases hresult
      obtain ⟨rfl, rfl⟩ := play_done_iff.1 hend
      exact ⟨.call j stage _, hw, ⟨a, by simp, rfl⟩, rfl⟩
  | abort f =>
    obtain ⟨rfl, rfl⟩ := play_done_iff.1 h
    exact ⟨.abort f, hw, rfl, rfl⟩
  | report result =>
    obtain ⟨rfl, rfl⟩ := play_done_iff.1 h
    exact ⟨.report result, hw, rfl, rfl⟩
  | finished => cases hready

/-- a deed that a worker may do is its next step -/
theorem Deed.play (hw : s.workers[n]? = some w) (hcan : s.Can n d) (hshown : d.Shows t es) :
    (step t s n w).Play es (.ok (s.after t n d)) := by
  cases d with
  | halt =>
    cases hw.symm.trans hcan.1
    simp only [step, hcan.2, if_true]
    exact play_done_iff.2 ⟨hshown, rfl⟩
  | look c =>
    cases hw.symm.trans hcan.1
    simp only [step, hcan.2, Bool.false_eq_true, if_false]
    exact play_cancelled_bind_iff.2 ⟨c, [], hshown, .done _⟩
  | take j =>
    cases hw.symm.trans hcan.1
    obtain ⟨rest, hq⟩ := List.head?_eq_some_iff.1 hcan.2
    simp only [step, hq, State.after, List.tail_cons]
    exact play_done_iff.2 ⟨hshown, rfl⟩
  | leave =>
    cases hw.symm.trans hcan.1
    simp only [step, hcan.2]
    exact play_done_iff.2 ⟨hshown, rfl⟩
  | call j stage result =>
    cases hw.symm.trans hcan
    obtain ⟨a, rfl, rfl⟩ := hshown
    exact play_bind_iff.2 (.inr ⟨_, _, [], rfl, play_attemptCall_iff.2 ⟨a, rfl, rfl⟩, .done _⟩)
  | abort f =>
    cases hw.symm.trans hcan
    exact play_done_iff.2 ⟨hshown, rfl⟩
  | report result =>
    cases hw.symm.trans hcan
    exact play_done_iff.2 ⟨hshown, rfl⟩

/-! ## Logs -/

theorem mem_ready_iff : (n, w) ∈ ready s ↔ s.workers[n]? = some w ∧ w.isFinished = false := by
  simp only [ready, List.mem_map, List.mem_filter, Bool.not_eq_eq_eq_not, Bool.not_true, Prod.exists, Prod.mk.injEq]
  constructor
  · rintro ⟨_, _, ⟨hmem, hnot⟩, rfl, rfl⟩
    exact ⟨List.mem_zipIdx_iff_getElem?.1 hmem, hnot⟩
  · rintro ⟨hw, hnot⟩
    exact ⟨w, n, ⟨List.mem_zipIdx_iff_getElem?.2 hw, hnot⟩, rfl, rfl⟩

theorem ready_eq_nil_iff : ready s = [] ↔ ∀ w ∈ s.workers, w = .finished := by
  constructor
  · intro h w hw
    obtain ⟨n, hn⟩ := List.mem_iff_getElem?.1 hw
    by_contra hne
    have hnot : w.isFinished = false := by cases w <;> first | rfl | exact absurd rfl hne
    have hmem := mem_ready_iff.2 ⟨hn, hnot⟩
    rw [h] at hmem
    cases hmem
  · intro h
    refine List.eq_nil_iff_forall_not_mem.2 fun ⟨n, w⟩ hmem => ?_
    obtain ⟨hw, hnot⟩ := mem_ready_iff.1 hmem
    obtain rfl := h w (List.mem_of_getElem? hw)
    cases hnot

/-- the surroundings' answer picks worker `n` among those that are ready -/
def State.Picks (s : State) (k n : Nat) : Prop := ((ready s)[k % (ready s).length]?).map Prod.fst = some n

/-- workers' deeds one after the other, with what they showed -/
inductive Logged (t : Target) : State → List Asked → List (Nat × Deed) → State → Prop
  | nil (s : State) : Logged t s [] [] s
  | cons {s s' : State} {n k : Nat} {d : Deed} {shown rest : List Asked} {log : List (Nat × Deed)}
      (hpick : s.Picks k n) (hcan : s.Can n d) (hshown : d.Shows t shown)
      (hrest : Logged t (s.after t n d) rest log s') :
      Logged t s (⟨.turn (ready s).length, k⟩ :: (shown ++ rest)) ((n, d) :: log) s'

/-- a worker that may do something is not finished -/
theorem State.Can.exists_worker (h : s.Can n d) : ∃ w, s.workers[n]? = some w ∧ w.isFinished = false := by
  cases d with
  | halt => exact ⟨_, h.1, rfl⟩
  | look c => exact ⟨_, h.1, rfl⟩
  | take j => exact ⟨_, h.1, rfl⟩
  | leave => exact ⟨_, h.1, rfl⟩
  | call j stage r => exact ⟨_, h, rfl⟩
  | abort f => exact ⟨_, h, rfl⟩
  | report r => exact ⟨_, h, rfl⟩

/-- where workers stand after a deed of worker `n` -/
theorem worker_after (hcan : s.Can n d) (m : Nat) :
    (s.after t n d).workers[m]? = if m = n then some (d.next t) else s.workers[m]? := by
  obtain ⟨w, hw, _⟩ := hcan.exists_worker
  rw [after_workers, List.getElem?_set]
  by_cases hm : n = m
  · subst hm
    have hlt : n < s.workers.length := (List.getElem?_eq_some_iff.1 hw).1
    simp [hlt]
  · rw [if_neg hm, if_neg (Ne.symm hm)]

/-- the deeds of a log, each open to its worker when its turn comes -/
def Possible (t : Target) : State → List (Nat × Deed) → State → Prop
  | s, [], s' => s' = s
  | s, (n, d) :: log, s' => s.Can n d ∧ Possible t (s.after t n d) log s'

theorem Deed.exists_shows (t : Target) (d : Deed) : ∃ shown, d.Shows t shown := by
  cases d with
  | look c => exact ⟨_, rfl⟩
  | call j stage r =>
    cases r with
    | error f => exact ⟨_, .error f, rfl, rfl⟩
    | ok u =>
      have hdone : ∃ a : (stageCall t j stage).Answer, True := by
        cases stage with
        | fetch => obtain ⟨_, _, _ | _⟩ := j <;> exact ⟨(), trivial⟩
        | _ => exact ⟨(), trivial⟩
      obtain ⟨a, _⟩ := hdone
      exact ⟨_, .ok a, rfl, rfl⟩
  | _ => exact ⟨_, rfl⟩

theorem State.Can.exists_pick (hcan : s.Can n d) : ∃ k, s.Picks k n := by
  obtain ⟨w, hw, hnot⟩ := hcan.exists_worker
  obtain ⟨k, hk⟩ := List.mem_iff_getElem?.1 (mem_ready_iff.2 ⟨hw, hnot⟩)
  have hlt : k < (ready s).length := (List.getElem?_eq_some_iff.1 hk).1
  exact ⟨k, by rw [State.Picks, Nat.mod_eq_of_lt hlt, hk]; rfl⟩

/-- every order of deeds that is possible is taken by some surroundings -/
theorem exists_logged_of_possible (h : Possible t s log s') : ∃ asked, Logged t s asked log s' := by
  induction log generalizing s with
  | nil =>
    obtain rfl := h
    exact ⟨[], .nil _⟩
  | cons e log ih =>
    obtain ⟨n, d⟩ := e
    obtain ⟨hcan, hrest⟩ := h
    obtain ⟨asked, hlogged⟩ := ih hrest
    obtain ⟨k, hpick⟩ := hcan.exists_pick
    obtain ⟨shown, hshown⟩ := d.exists_shows t
    exact ⟨_, .cons hpick hcan hshown hlogged⟩

theorem Possible.append {s₁ : State} {log₁ log₂ : List (Nat × Deed)} (h₁ : Possible t s log₁ s₁)
    (h₂ : Possible t s₁ log₂ s') : Possible t s (log₁ ++ log₂) s' := by
  induction log₁ generalizing s with
  | nil =>
    obtain rfl := h₁
    exact h₂
  | cons e log₁ ih => exact ⟨h₁.1, ih h₁.2⟩

/-- what every deed keeps holds of every log -/
theorem Logged.invariant (Inv : List (Nat × Deed) → State → Prop)
    (hstep : ∀ {log s n d}, Inv log s → s.Can n d → Inv (log ++ [(n, d)]) (s.after t n d))
    (h : Logged t s es log s') {before : List (Nat × Deed)} (hbefore : Inv before s) : Inv (before ++ log) s' := by
  induction h generalizing before with
  | nil s => rwa [List.append_nil]
  | cons hpick hcan hshown hrest ih =>
    have := ih (hstep hbefore hcan)
    rwa [List.append_assoc, List.singleton_append] at this

/-- a log can be cut anywhere -/
theorem Logged.split {log₁ log₂ : List (Nat × Deed)} (h : Logged t s es (log₁ ++ log₂) s') :
    ∃ s₁ es₁ es₂, es = es₁ ++ es₂ ∧ Logged t s es₁ log₁ s₁ ∧ Logged t s₁ es₂ log₂ s' := by
  induction log₁ generalizing s es with
  | nil => exact ⟨s, [], es, rfl, .nil s, h⟩
  | cons e log₁ ih =>
    cases h with
    | cons hpick hcan hshown hrest =>
      obtain ⟨s₁, es₁, es₂, rfl, h₁, h₂⟩ := ih hrest
      exact ⟨s₁, _, es₂, by simp, .cons hpick hcan hshown h₁, h₂⟩

/-! ## Every run ends -/

/-- how many steps a worker can still take before it looks for another job, and two more for the look -/
def Worker.weight : Worker → Nat
  | .finished => 0
  | .take => 1
  | .check => 2
  | .report _ => 3
  | .abort _ => 4
  | .work _ .push => 5
  | .work _ .tag => 6
  | .work _ .repository => 7
  | .work _ .fetch => 8

/-- how many steps the workers can still take, at the most -/
def State.left (s : State) : Nat := 8 * s.queue.length + (s.workers.map Worker.weight).sum

theorem sum_map_set (f : Worker → Nat) {l : List Worker} (w' : Worker) (h : l[n]? = some w) :
    ((l.set n w').map f).sum + f w = (l.map f).sum + f w' := by
  induction l generalizing n with
  | nil => simp at h
  | cons x l ih =>
    cases n with
    | zero =>
      simp only [List.getElem?_cons_zero, Option.some.injEq] at h
      subst h
      simp only [List.set_cons_zero, List.map_cons, List.sum_cons]
      omega
    | succ n =>
      simp only [List.getElem?_cons_succ] at h
      have := ih h
      simp only [List.set_cons_succ, List.map_cons, List.sum_cons]
      omega

/-- every deed uses up some of what is left to do -/
theorem left_after (h : s.Can n d) : (s.after t n d).left < s.left := by
  have hset {w : Worker} (hw : s.workers[n]? = some w) :
      (s.after t n d).left + w.weight =
        8 * (s.after t n d).queue.length + (s.workers.map Worker.weight).sum + (d.next t).weight := by
    have := sum_map_set Worker.weight (d.next t) hw
    simp only [State.left, after_workers]
    omega
  cases d with
  | halt =>
    have := hset h.1
    simp only [Worker.weight, Deed.next, State.after, State.put, State.left] at this ⊢
    omega
  | look c =>
    have := hset h.1
    cases c <;>
    · simp only [Worker.weight, Deed.next, State.after, State.put, State.left, if_true, Bool.false_eq_true,
        if_false] at this ⊢
      omega
  | take j =>
    have := hset h.1
    obtain ⟨rest, hq⟩ := List.head?_eq_some_iff.1 h.2
    simp only [Worker.weight, Deed.next, State.after, State.put, State.left, hq, List.tail_cons,
      List.length_cons] at this ⊢
    omega
  | leave =>
    have := hset h.1
    simp only [Worker.weight, Deed.next, State.after, State.put, State.left] at this ⊢
    omega
  | call j stage r =>
    have := hset h
    have hlt : (afterCall t j stage r).weight < (Worker.work j stage).weight := by
      cases r <;> cases stage <;> simp [afterCall, afterStage, Worker.weight]
    simp only [Deed.next, State.after, State.put, State.left] at this ⊢
    omega
  | abort f =>
    have := hset h
    simp only [Worker.weight, Deed.next, State.after, State.put, State.left] at this ⊢
    omega
  | report r =>
    have := hset h
    simp only [Worker.weight, Deed.next, State.after, State.put, State.left] at this ⊢
    omega

theorem Logged.length_le (h : Logged t s es log s') : log.length + s'.left ≤ s.left := by
  induction h with
  | nil s => simp
  | cons hpick hcan hshown hrest ih =>
    have := left_after (t := t) hcan
    simp only [List.length_cons]
    omega

theorem left_start_lt (jobs : List ImageJob) (concurrency : Nat) :
    (start jobs concurrency).left < enough (start jobs concurrency) := by
  simp only [State.left, enough, start, List.map_replicate, List.sum_replicate, List.length_replicate, Worker.weight,
    smul_eq_mul]
  omega

/-! ## Plays are courses -/

/-- steps that go on until nobody is ready, or the fuel is used up, are logged deeds -/
theorem exists_logged {fuel : Nat} {r : Except Empty State} (h : (runFrom t fuel s).Play es r) :
    ∃ log s', r = .ok s' ∧ Logged t s es log s' ∧ (ready s' = [] ∨ log.length = fuel) := by
  induction fuel generalizing s es with
  | zero =>
    obtain ⟨rfl, rfl⟩ := play_done_iff.1 h
    exact ⟨[], s, rfl, .nil s, .inr rfl⟩
  | succ fuel ih =>
    rw [runFrom] at h
    cases hready : ready s with
    | nil =>
      simp only [hready] at h
      obtain ⟨rfl, rfl⟩ := play_done_iff.1 h
      exact ⟨[], s, rfl, .nil s, .inl hready⟩
    | cons first rest =>
      simp only [hready] at h
      obtain ⟨k, es', rfl, hturn⟩ := play_ask_iff.1 h
      have hlen : (ready s).length = rest.length + 1 := by rw [hready]; rfl
      have hget : (first :: rest)[k % (rest.length + 1)]? =
          some ((first :: rest).getD (k % (rest.length + 1)) first) := by
        have hlt : k % (rest.length + 1) < (first :: rest).length := Nat.mod_lt _ (Nat.succ_pos _)
        rw [List.getD_eq_getElem?_getD, List.getElem?_eq_getElem hlt]
        rfl
      obtain ⟨n, w, hchosen⟩ : ∃ n w, (first :: rest).getD (k % (rest.length + 1)) first = (n, w) := ⟨_, _, rfl⟩
      rw [hchosen] at hget
      obtain ⟨hw, hnot⟩ := mem_ready_iff.1 (hready ▸ List.mem_of_getElem? hget : (n, w) ∈ ready s)
      simp only [Dialogue.bind_done, hchosen] at hturn
      rcases play_bind_iff.1 hturn with ⟨e, _⟩ | ⟨s₁, shown, rest', rfl, hstep, hrest⟩
      · exact e.elim
      obtain ⟨d, hcan, hshown, hs₁⟩ := exists_deed hw hnot hstep
      cases hs₁
      obtain ⟨log, s', rfl, hlogged, hend⟩ := ih hrest
      refine ⟨(n, d) :: log, s', rfl, ?_, hend.imp_right fun h => by rw [List.length_cons, h]⟩
      rw [show rest.length + 1 = (ready s).length from hlen.symm]
      refine .cons ?_ hcan hshown hlogged
      rw [State.Picks, hready, List.length_cons, hget]
      rfl

/-- logged deeds that leave nobody ready are the steps of a run with enough fuel -/
theorem Logged.play {fuel : Nat} (h : Logged t s es log s') (hend : ready s' = []) (hfuel : log.length ≤ fuel) :
    (runFrom t fuel s).Play es (.ok s') := by
  induction h generalizing fuel with
  | nil s =>
    cases fuel with
    | zero => exact .done s
    | succ fuel =>
      rw [runFrom]
      simp only [hend]
      exact .done s
  | @cons s s' n k d shown rest log hpick hcan hshown hrest ih =>
    cases fuel with
    | zero => simp at hfuel
    | succ fuel =>
      rw [runFrom]
      obtain ⟨w, hw, hnot⟩ := hcan.exists_worker
      cases hready : ready s with
      | nil => exact absurd (mem_ready_iff.2 ⟨hw, hnot⟩) (by simp [hready])
      | cons first others =>
        simp only [List.length_cons]
        refine play_ask_iff.2 ⟨k, _, rfl, ?_⟩
        simp only [Dialogue.bind_done]
        rw [State.Picks, hready, List.length_cons] at hpick
        obtain ⟨⟨n', w'⟩, hget, rfl⟩ := Option.map_eq_some_iff.1 hpick
        obtain ⟨hw', _⟩ := mem_ready_iff.1 (hready ▸ List.mem_of_getElem? hget : (n', w') ∈ ready s)
        cases hw.symm.trans hw'
        have hchosen : (first :: others).getD (k % (others.length + 1)) first = (n', w) := by
          rw [List.getD_eq_getElem?_getD, hget]
          rfl
        rw [hchosen]
        refine play_bind_iff.2 (.inr ⟨_, shown, rest, rfl, Deed.play hw hcan hshown, ?_⟩)
        exact ih hend (by simpa using hfuel)

/-- a run of `publish` from its start to its result: what the workers did, and what they exchanged -/
def Course (t : Target) (jobs : List ImageJob) (concurrency : Nat) (log : List (Nat × Deed)) (es : List Asked)
    (r : Except Fault Images) : Prop :=
  ∃ asked s rest, es = asked ++ rest ∧ Logged t (start jobs concurrency) asked log s ∧ ready s = [] ∧
    (outcome jobs.length s).Play rest r

/-- **The plays of `publish` are its courses.** Whatever the surroundings answer, and whomever they let go on, every
worker comes to its end. -/
theorem play_publish_iff {r : Except Fault Images} :
    (publish t jobs concurrency).Play es r ↔ ∃ log, Course t jobs concurrency log es r := by
  have hfuel : ∀ {asked log s}, Logged t (start jobs concurrency) asked log s →
      log.length < enough (start jobs concurrency) := fun h =>
    lt_of_le_of_lt ((Nat.le_add_right _ _).trans h.length_le) (left_start_lt jobs concurrency)
  simp only [publish, Action.widen, run, play_bind_iff, play_mapFailure_iff]
  constructor
  · rintro (⟨_, _, x, hx, hplay⟩ | ⟨s, asked, rest, rfl, ⟨x, hx, hplay⟩, houtcome⟩)
    · obtain ⟨_, _, rfl, _⟩ := exists_logged hplay
      cases hx
    · obtain ⟨log, s', rfl, hlogged, hend⟩ := exists_logged hplay
      cases hx
      have hready : ready s = [] := hend.resolve_right (hfuel hlogged).ne
      exact ⟨log, asked, s, rest, rfl, hlogged, hready, houtcome⟩
  · rintro ⟨log, asked, s, rest, rfl, hlogged, hready, houtcome⟩
    exact .inr ⟨s, asked, rest, rfl, ⟨.ok s, rfl, hlogged.play hready (hfuel hlogged).le⟩, houtcome⟩

/-! ## A shop's two images -/

def shopTarget : Target := ⟨⟨"default", "eu", "1", "shop"⟩, "registry"⟩

def web : ImageJob := ⟨"web", "1", .build "/shop/web" "Dockerfile" "shop-web"⟩

def database : ImageJob := ⟨"database", "8", .pull "mysql:8"⟩

end Fleet.Publish
