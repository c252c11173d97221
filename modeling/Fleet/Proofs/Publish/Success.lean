/-
Publishing that succeeds, under every interleaving of the workers.

- `complete_of_course`: a run that returns images did every job as a whole, and the images are those of the jobs.
- `ok_of_clean`: a run in which nothing fails and the token is not cancelled returns images, if the names differ.
- `inFlight_le_workers`: at no time there are more jobs taken and not yet reported than there are workers.
- `publish_is_complete`: all of this, for every play of `publish`.
-/
import Fleet.Proofs.Publish.Outcome

namespace Fleet.Publish

open Dialogue

variable {t : Target} {s : State} {n : Nat} {es asked : List Asked} {log : List (Nat × Deed)}
  {jobs : List ImageJob} {concurrency : Nat} {r : Except Fault Images} {images : Images}

/-- what a run that returns images has done -/
structure Complete (t : Target) (jobs : List ImageJob) (log : List (Nat × Deed)) (es : List Asked)
    (images : Images) : Prop where
  names : (jobs.map ImageJob.name).Nodup
  /-- each job is taken once, by one worker, which makes the job's calls once and in order, and all succeed -/
  whole : ∀ j ∈ jobs, ∃! n, about j log = wholeJob n j
  /-- the last look at the caller's token finds it not cancelled -/
  token : es.getLast? = some ⟨.cancelled, false⟩
  images : ∀ name reference, images.get? name = some reference ↔ ∃ j ∈ jobs, publication t j = (name, reference)

theorem wholeJob_inj {m : Nat} {j : ImageJob} (h : wholeJob n j = wholeJob m j) : n = m := by
  simpa [wholeJob] using h

theorem takes_subset_jobs (h : Sound t jobs log s) : takes log ⊆ jobs := by
  rw [← h.taken]
  exact List.subset_append_left _ _

/-- a published name is a taken job's -/
theorem Sound.exists_job (h : Sound t jobs log s) {p : Published} (hp : .ok p ∈ reports log) :
    ∃ j ∈ takes log, p = publication t j := by
  obtain ⟨n, hgrounds⟩ := h.reported _ hp
  exact hgrounds

theorem length_reports_le (h : Sound t jobs log s) : (reports log).length ≤ jobs.length := by
  have hheld := h.held
  have htaken := congrArg List.length h.taken
  rw [List.length_append] at htaken
  omega

/-! ## A run that returns images -/

section Returned

variable (h : Sound t jobs log s) (hsize : (SortedMap.ofList (published (reports log))).size = jobs.length)
include h hsize

/-- there are as many published names as jobs, so each job's name is published, and the names differ -/
theorem names_of_size : (jobs.map ImageJob.name).Nodup ∧
    ∀ j ∈ jobs, j.name ∈ (SortedMap.ofList (published (reports log))).keys := by
  have hnodup := SortedMap.nodup_keys (SortedMap.ofList (published (reports log)))
  have hsub : (SortedMap.ofList (published (reports log))).keys ⊆ jobs.map ImageJob.name := by
    intro name hname
    obtain ⟨reference, hget⟩ := SortedMap.mem_keys_iff.1 hname
    obtain ⟨j, hj, hp⟩ := h.exists_job (mem_published_iff.1 (SortedMap.mem_of_get?_ofList hget))
    exact List.mem_map.2 ⟨j, takes_subset_jobs h hj, (congrArg Prod.fst hp).symm⟩
  have hperm : (SortedMap.ofList (published (reports log))).keys.Perm (jobs.map ImageJob.name) := by
    refine (List.subperm_of_subset hnodup hsub).perm_of_length_le ?_
    rw [SortedMap.length_keys, hsize, List.length_map]
  refine ⟨hperm.nodup_iff.1 hnodup, fun j hj => ?_⟩
  exact hperm.mem_iff.2 (List.mem_map_of_mem hj)

/-- every job was taken, and is published under its name -/
theorem taken_of_size {j : ImageJob} (hj : j ∈ jobs) : j ∈ takes log ∧
    (SortedMap.ofList (published (reports log))).get? j.name = some (publication t j).2 := by
  obtain ⟨hnames, hkeys⟩ := names_of_size h hsize
  obtain ⟨reference, hget⟩ := SortedMap.mem_keys_iff.1 (hkeys j hj)
  obtain ⟨i, hi, hp⟩ := h.exists_job (mem_published_iff.1 (SortedMap.mem_of_get?_ofList hget))
  have hij : i = j := by
    refine List.inj_on_of_nodup_map hnames (takes_subset_jobs h hi) hj ?_
    exact (congrArg Prod.fst hp).symm
  subst hij
  exact ⟨hi, hget.trans (congrArg (fun p : Published => some p.2) hp)⟩

/-- the published images are those of the jobs -/
theorem images_of_size (name reference : String) :
    (SortedMap.ofList (published (reports log))).get? name = some reference ↔
      ∃ j ∈ jobs, publication t j = (name, reference) := by
  constructor
  · intro hget
    obtain ⟨j, hj, hp⟩ := h.exists_job (mem_published_iff.1 (SortedMap.mem_of_get?_ofList hget))
    exact ⟨j, takes_subset_jobs h hj, hp.symm⟩
  · rintro ⟨j, hj, hp⟩
    have hget := (taken_of_size h hsize hj).2
    rw [hp] at hget
    rwa [show j.name = name from congrArg Prod.fst hp] at hget

theorem not_mem_queue_of_size {j : ImageJob} (hj : j ∈ jobs) : j ∉ s.queue := by
  have hnodup : (takes log ++ s.queue).Nodup := h.taken.symm ▸ (names_of_size h hsize).1.of_map
  intro hq
  exact (List.nodup_append.1 hnodup).2.2 j (taken_of_size h hsize hj).1 j hq rfl

end Returned

theorem complete_of_course (h : Course t jobs concurrency log es (.ok images)) : Complete t jobs log es images := by
  obtain ⟨asked, s, rest, rfl, hlogged, hready, houtcome⟩ := h
  have hclosed := hlogged.closed hready
  rcases play_outcome_iff.1 houtcome with ⟨f, _, _, hr⟩ | ⟨hfirst, c, rfl, hr⟩
  · cases hr
  rw [hclosed.arrived] at hfirst hr
  split at hr
  · cases hr
  rename_i hgood
  cases hr
  obtain ⟨rfl, hsize⟩ : c = false ∧ (SortedMap.ofList (published (reports log))).size = jobs.length := by
    simpa using hgood
  have hnone : ∀ n f, ¬ Failed log n f := fun n f hf =>
    firstFault_eq_none_iff.1 hfirst f (hclosed.reported_of_failed hf)
  have hnames := (names_of_size hclosed.toSound hsize).1
  refine ⟨hnames, fun j hj => ?_, by simp, images_of_size hclosed.toSound hsize⟩
  have htracked := hlogged.tracked hnames.of_map
  obtain ⟨n, hwhole, _⟩ := (hclosed.whole_of_tracked htracked hnone hj).resolve_left
    (not_mem_queue_of_size hclosed.toSound hsize hj)
  exact ⟨n, hwhole, fun m hm => wholeJob_inj (hm.symm.trans hwhole)⟩

/-- no map is returned if a call failed -/
theorem ne_ok_of_failed (h : Course t jobs concurrency log es r) {f : Fault} (hf : Failed log n f) :
    r ≠ .ok images := by
  rintro rfl
  obtain ⟨asked, s, rest, rfl, hlogged, hready, houtcome⟩ := h
  have hclosed := hlogged.closed hready
  rcases play_outcome_iff.1 houtcome with ⟨_, _, _, hr⟩ | ⟨hfirst, _, _, _⟩
  · cases hr
  · rw [hclosed.arrived] at hfirst
    exact firstFault_eq_none_iff.1 hfirst f (hclosed.reported_of_failed hf)

/-- two runs that return images return the same -/
theorem images_unique {concurrency' : Nat} {log' : List (Nat × Deed)} {es' : List Asked} {images' : Images}
    (h : Course t jobs concurrency log es (.ok images)) (h' : Course t jobs concurrency' log' es' (.ok images')) :
    images' = images := by
  refine SortedMap.ext_get? fun name => Option.ext fun reference => ?_
  rw [(complete_of_course h').images, (complete_of_course h).images]

/-! ## A run in which nothing goes wrong -/

/-- the token is never found cancelled, and no call fails -/
def Clean (es : List Asked) : Prop := (⟨.cancelled, true⟩ : Asked) ∉ es ∧ ∀ c f, (⟨.call c, .error f⟩ : Asked) ∉ es

theorem Clean.not_failed (h : Clean es) (hlogged : Logged t (start jobs concurrency) asked log s) (hsub : asked ⊆ es)
    (n : Nat) (f : Fault) : ¬ Failed log n f := by
  rintro ⟨j, stage, hmem⟩
  obtain ⟨shown, ⟨a, rfl, ha⟩, hshown⟩ := hlogged.shows hmem
  cases a with
  | ok u => cases ha
  | error g => exact h.2 _ g (hsub (hshown List.mem_cons_self))

theorem Clean.not_look (h : Clean es) (hlogged : Logged t (start jobs concurrency) asked log s) (hsub : asked ⊆ es)
    (n : Nat) : (n, .look true) ∉ log := by
  intro hmem
  obtain ⟨shown, rfl, hshown⟩ := hlogged.shows hmem
  exact h.1 (hsub (hshown List.mem_cons_self))

theorem ok_of_clean (h : Course t jobs concurrency log es r) (hnames : (jobs.map ImageJob.name).Nodup)
    (hclean : Clean es) : ∃ images, r = .ok images := by
  obtain ⟨asked, s, rest, rfl, hlogged, hready, houtcome⟩ := h
  have hclosed := hlogged.closed hready
  have hnone := hclean.not_failed hlogged (List.subset_append_left _ _)
  have hqueue := hclosed.queue_eq_nil hnone (hclean.not_look hlogged (List.subset_append_left _ _))
  have htracked := hlogged.tracked hnames.of_map
  have hfaultless : firstFault (reports log) = none := firstFault_eq_none_iff.2 fun f hf => by
    obtain ⟨n, _, hfailed⟩ := hclosed.reported _ hf
    exact hnone n f hfailed
  -- every job is reported, so there are as many names as jobs; there are no more, for each job is reported once
  have hkeys : jobs.map ImageJob.name ⊆ (SortedMap.ofList (published (reports log))).keys := by
    intro name hname
    obtain ⟨j, hj, rfl⟩ := List.mem_map.1 hname
    obtain ⟨n, _, hpublished⟩ := (hclosed.whole_of_tracked htracked hnone hj).resolve_left (by simp [hqueue])
    refine SortedMap.mem_keys_iff.2 (SortedMap.exists_get?_ofList ?_)
    exact List.mem_map.2 ⟨publication t j, mem_published_iff.2 hpublished, rfl⟩
  have hge := (List.subperm_of_subset hnames hkeys).length_le
  have hle := SortedMap.size_ofList_le (published (reports log))
  have hpublished := length_published_le (reports log)
  have hreports := length_reports_le hclosed.toSound
  rw [List.length_map, SortedMap.length_keys] at hge
  have hsize : (SortedMap.ofList (published (reports log))).size = jobs.length := by omega
  rcases play_outcome_iff.1 houtcome with ⟨f, hf, _⟩ | ⟨_, c, rfl, hr⟩
  · rw [hclosed.arrived, hfaultless] at hf
    cases hf
  · have hc : c = false := by
      cases c with
      | false => rfl
      | true => exact absurd (List.mem_append_right _ List.mem_cons_self) hclean.1
    rw [hclosed.arrived, hc, hsize, if_neg (by simp)] at hr
    exact ⟨_, hr⟩

/-! ## Jobs in flight -/

/-- at any time of a run, the jobs that are taken and not yet reported are no more than the workers -/
theorem inFlight_le_workers (h : Course t jobs concurrency log es r) (k : Nat) :
    (takes (log.take k)).length ≤ (reports (log.take k)).length + workerCount concurrency jobs.length := by
  obtain ⟨asked, s, rest, rfl, hlogged, _, _⟩ := h
  rw [← List.take_append_drop k log] at hlogged
  obtain ⟨s₁, es₁, es₂, _, hfirst, _⟩ := hlogged.split
  have hheld := hfirst.sound.held
  have hle := inFlight_le s₁
  have hlen := hfirst.length_workers
  rw [show (start jobs concurrency).workers.length = workerCount concurrency jobs.length from
    List.length_replicate] at hlen
  omega

/-- **Publishing is complete or fails, under every interleaving.** For every play of `publish` there is a log of what
the workers did. The calls that were made are those of the log, and there are never more jobs in flight than the
concurrency allows. If a call failed, no images are returned; they are if nothing goes wrong and the names of the jobs
differ. If images are returned, each job was done as a whole by one worker, the names of the jobs differ, and the images
are those of the jobs; they are the images that a single worker publishes, whenever it publishes any, and it does if
nothing goes wrong. -/
theorem publish_is_complete (h : (publish t jobs concurrency).Play es r) :
    ∃ log, Course t jobs concurrency log es r ∧ calls es = log.filterMap (fun e => e.2.call? t) ∧
      (∀ k, (takes (log.take k)).length ≤
        (reports (log.take k)).length + max 1 (min concurrency (max 1 jobs.length))) ∧
      ((∃ n f, Failed log n f) → ∀ images, r ≠ .ok images) ∧
      ((jobs.map ImageJob.name).Nodup → Clean es → ∃ images, r = .ok images) ∧
      ∀ images, r = .ok images → Complete t jobs log es images ∧
        (∀ es' images', (publish t jobs 1).Play es' (.ok images') → images' = images) ∧
        ∀ es' r', (publish t jobs 1).Play es' r' → Clean es' → r' = .ok images := by
  obtain ⟨log, hcourse⟩ := play_publish_iff.1 h
  refine ⟨log, hcourse, hcourse.calls_eq, inFlight_le_workers hcourse, ?_, fun hnames hclean => ?_, ?_⟩
  · rintro ⟨n, f, hf⟩ images
    exact ne_ok_of_failed hcourse hf
  · exact ok_of_clean hcourse hnames hclean
  · rintro images rfl
    have hcomplete := complete_of_course hcourse
    refine ⟨hcomplete, fun es' images' h' => ?_, fun es' r' h' hclean => ?_⟩
    · obtain ⟨log', hcourse'⟩ := play_publish_iff.1 h'
      exact images_unique hcourse hcourse'
    · obtain ⟨log', hcourse'⟩ := play_publish_iff.1 h'
      obtain ⟨images', rfl⟩ := ok_of_clean hcourse' hcomplete.names hclean
      rw [images_unique hcourse hcourse']

/-- two workers that publish an image each, at the same time -/
def alternating (t : Target) (x y : ImageJob) : List (Nat × Deed) :=
  [(0, .look false), (1, .look false), (0, .take x), (1, .take y), (1, .call y .fetch (.ok ())),
    (0, .call x .fetch (.ok ())), (0, .call x .repository (.ok ())), (1, .call y .repository (.ok ())),
    (1, .call y .tag (.ok ())), (0, .call x .tag (.ok ())), (1, .call y .push (.ok ())), (0, .call x .push (.ok ())),
    (1, .report (.ok (publication t y))), (0, .report (.ok (publication t x))), (1, .look false), (0, .look false),
    (1, .leave), (0, .leave)]

theorem possible_alternating (t : Target) (x y : ImageJob) : Possible t (start [x, y] 2) (alternating t x y)
    { workers := [.finished, .finished], queue := [],
      results := [.ok (publication t x), .ok (publication t y)] } := by
  simp [Possible, alternating, start, workerCount, State.Can, State.after, State.put, afterCall, afterStage,
    publication]

theorem shop_is_published : ∃ es images log, (publish shopTarget [web, database] 2).Play es (.ok images) ∧
    Complete shopTarget [web, database] log es images := by
  obtain ⟨asked, hlogged⟩ := exists_logged_of_possible (possible_alternating shopTarget web database)
  have hcourse : Course shopTarget [web, database] 2 (alternating shopTarget web database)
      (asked ++ [⟨.cancelled, false⟩])
      (.ok (.ofList [publication shopTarget database, publication shopTarget web])) := by
    have hsize : (SortedMap.ofList [publication shopTarget database, publication shopTarget web]).size = 2 := by
      decide +kernel
    refine ⟨asked, _, _, rfl, hlogged, rfl, play_outcome_iff.2 (.inr ⟨rfl, false, rfl, ?_⟩)⟩
    exact (if_neg (by simpa [published] using hsize)).symm
  have hplay := play_publish_iff.2 ⟨_, hcourse⟩
  obtain ⟨log, _, _, _, _, _, hreturned⟩ := publish_is_complete hplay
  exact ⟨_, _, log, hplay, (hreturned _ rfl).1⟩

end Fleet.Publish
