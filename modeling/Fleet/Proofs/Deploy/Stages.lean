/-
What the stages of a deploy do, one by one.

Each call of a deploy belongs to one stage (`Call.stage?`), and a stage makes no calls but its own
(`step_asksOnly`). For the stages that touch the infrastructure's text the plays are given in full: what was asked,
and what context is left. `readings`, `writings` and `confirmations` say what an exchange of questions and answers
shows of the previous text, the generated text and the operator's decisions.
-/
import Mathlib.Tactic
import Fleet.Proofs.Deploy.Pipeline

namespace Fleet

open Dialogue

/-! ## What exchanges show -/

def Asked.reading? : Asked → Option (Option String)
  | ⟨.call (.readDefinition _), .ok previous⟩ => some previous
  | _ => none

/-- the previous definitions that were read -/
def readings (es : List Asked) : List (Option String) := es.filterMap Asked.reading?

def Asked.writing? : Asked → Option String
  | ⟨.call (.writeDefinition _ _), .ok text⟩ => some text
  | _ => none

/-- the definitions that were written -/
def writings (es : List Asked) : List String := es.filterMap Asked.writing?

def Asked.confirmation? : Asked → Option (Except Fault Bool)
  | ⟨.call (.confirm _), decision⟩ => some decision
  | _ => none

/-- what the operator answered, each time there was a question -/
def confirmations (es : List Asked) : List (Except Fault Bool) := es.filterMap Asked.confirmation?

@[simp] theorem readings_append (es₁ es₂ : List Asked) : readings (es₁ ++ es₂) = readings es₁ ++ readings es₂ :=
  List.filterMap_append

@[simp] theorem writings_append (es₁ es₂ : List Asked) : writings (es₁ ++ es₂) = writings es₁ ++ writings es₂ :=
  List.filterMap_append

@[simp] theorem confirmations_append (es₁ es₂ : List Asked) :
    confirmations (es₁ ++ es₂) = confirmations es₁ ++ confirmations es₂ :=
  List.filterMap_append

@[simp] theorem confirmations_opening (s : Stage) : confirmations (Pipeline.opening s) = [] := rfl

theorem mem_readings {es : List Asked} {p : Option String} :
    p ∈ readings es ↔ ∃ dir, (⟨.call (.readDefinition dir), .ok p⟩ : Asked) ∈ es := by
  simp only [readings, List.mem_filterMap]
  constructor
  · rintro ⟨e, he, hp⟩
    unfold Asked.reading? at hp
    split at hp
    · cases hp; exact ⟨_, he⟩
    · cases hp
  · rintro ⟨dir, he⟩; exact ⟨_, he, rfl⟩

theorem mem_writings {es : List Asked} {text : String} :
    text ∈ writings es ↔ ∃ dir i, (⟨.call (.writeDefinition dir i), .ok text⟩ : Asked) ∈ es := by
  simp only [writings, List.mem_filterMap]
  constructor
  · rintro ⟨e, he, ht⟩
    unfold Asked.writing? at ht
    split at ht
    · cases ht; exact ⟨_, _, he⟩
    · cases ht
  · rintro ⟨dir, i, he⟩; exact ⟨_, he, rfl⟩

theorem mem_confirmations {es : List Asked} {decision : Except Fault Bool} :
    decision ∈ confirmations es ↔ ∃ prompt, (⟨.call (.confirm prompt), decision⟩ : Asked) ∈ es := by
  simp only [confirmations, List.mem_filterMap]
  constructor
  · rintro ⟨e, he, hd⟩
    unfold Asked.confirmation? at hd
    split at hd
    · cases hd; exact ⟨_, he⟩
    · cases hd
  · rintro ⟨prompt, he⟩; exact ⟨_, he, rfl⟩

/-! ## Each call has its stage -/

/-- the stage of a deploy that makes a call, if one does -/
def Call.stage? : Call → Option Stage
  | .ensureAccount _ => some .provisionAccount
  | .registryLogin _ | .build _ _ _ | .pull _ | .ensureRepository _ _ | .tag _ _ | .push _ => some .pushImages
  | .readDefinition _ => some .readPriorState
  | .writeDefinition _ _ => some .generateFiles
  | .confirm _ => some .diffCheck
  | .readSecrets _ => some .retrieveSecrets
  | .initialise _ _ => some .initialiseState
  | .apply _ _ _ => some .apply
  | .imageExists _ | .start _ _ _ | .wait _ | .stop _ | .remove _ | .createNetwork _ | .removeNetwork _ | .listImages
  | .listContainers | .prune => none

/-- no call, or a call of one of these stages -/
def Ask.IsOf (l : List Stage) : Ask → Prop
  | .call c => ∃ s ∈ l, c.stage? = some s
  | _ => True

theorem Ask.IsOf.mono {l m : List Stage} (h : l ⊆ m) {q : Ask} (hq : q.IsOf l) : q.IsOf m := by
  cases q with
  | call c => obtain ⟨s, hs, hc⟩ := hq; exact ⟨s, h hs, hc⟩
  | _ => trivial

section Quiet

variable {l : List Stage} {es : List Asked} (h : ∀ e ∈ es, e.1.IsOf l)
include h

theorem stage_of_mem_calls {c : Call} (hc : c ∈ calls es) : ∃ s ∈ l, c.stage? = some s := by
  obtain ⟨r, hr⟩ := mem_calls.1 hc
  exact h _ hr

theorem readings_eq_nil (hl : .readPriorState ∉ l) : readings es = [] := by
  refine List.eq_nil_iff_forall_not_mem.2 fun p hp => ?_
  obtain ⟨dir, he⟩ := mem_readings.1 hp
  obtain ⟨s, hs, hc⟩ := h _ he
  cases hc
  exact hl hs

theorem writings_eq_nil (hl : .generateFiles ∉ l) : writings es = [] := by
  refine List.eq_nil_iff_forall_not_mem.2 fun text ht => ?_
  obtain ⟨dir, i, he⟩ := mem_writings.1 ht
  obtain ⟨s, hs, hc⟩ := h _ he
  cases hc
  exact hl hs

theorem confirmations_eq_nil (hl : .diffCheck ∉ l) : confirmations es = [] := by
  refine List.eq_nil_iff_forall_not_mem.2 fun decision hd => ?_
  obtain ⟨prompt, he⟩ := mem_confirmations.1 hd
  obtain ⟨s, hs, hc⟩ := h _ he
  cases hc
  exact hl hs

end Quiet

/-! ## A stage makes its own calls only -/

namespace Publish

theorem step_asksOnly (t : Target) (s : State) (n : Nat) (w : Worker) :
    (step t s n w).AsksOnly (Ask.IsOf [.pushImages]) := by
  cases w with
  | check =>
    simp only [step]
    split
    · trivial
    · exact ⟨trivial, fun _ => trivial⟩
  | take => simp only [step]; split <;> trivial
  | work j stage =>
    refine ⟨⟨.pushImages, List.mem_singleton_self _, ?_⟩, fun _ => trivial⟩
    cases stage with
    | fetch => simp only [stageCall]; split <;> rfl
    | _ => rfl
  | _ => trivial

theorem runFrom_asksOnly (t : Target) (fuel : Nat) (s : State) :
    (runFrom t fuel s).AsksOnly (Ask.IsOf [.pushImages]) := by
  induction fuel generalizing s with
  | zero => trivial
  | succ fuel ih =>
    simp only [runFrom]
    split
    · trivial
    · exact asksOnly_bind ⟨trivial, fun _ => trivial⟩ fun _ => asksOnly_bind (step_asksOnly _ _ _ _) ih

theorem outcome_asksOnly (total : Nat) (s : State) : (outcome total s).AsksOnly (Ask.IsOf []) := by
  simp only [outcome]
  split
  · trivial
  · refine ⟨trivial, fun c => ?_⟩
    simp only [bind_done]
    split <;> trivial

end Publish

theorem publish_asksOnly (t : Publish.Target) (jobs : List ImageJob) (concurrency : Nat) :
    (publish t jobs concurrency).AsksOnly (Ask.IsOf [.pushImages]) :=
  asksOnly_bind (asksOnly_mapFailure (Publish.runFrom_asksOnly _ _ _))
    fun s => (Publish.outcome_asksOnly _ s).mono fun _ => Ask.IsOf.mono (List.nil_subset _)

namespace Deploy

theorem announce_asksOnly (l : List (String × String)) : (announce l).AsksOnly (Ask.IsOf []) := by
  induction l with
  | nil => trivial
  | cons e l ih => exact ⟨trivial, fun _ => ih⟩

theorem settleDrift_asksOnly (d : Deploy) (drift : Drift) :
    (d.settleDrift drift).AsksOnly (Ask.IsOf [.diffCheck]) := by
  cases drift with
  | noPrior => exact ⟨trivial, fun _ => trivial⟩
  | unchanged digest => exact ⟨trivial, fun _ => trivial⟩
  | changed diff additions deletions =>
    refine asksOnly_bind ⟨trivial, fun _ => trivial⟩ fun _ => ?_
    split
    · trivial
    · refine asksOnly_bind (asksOnly_call ⟨_, List.mem_singleton_self _, rfl⟩) fun accepted => ?_
      split <;> trivial

/-- **No stage makes another stage's calls.** -/
theorem step_asksOnly (s : Stage) (d : Deploy) : (step s d).AsksOnly (Ask.IsOf [s]) := by
  have own {c : Call} (hc : c.stage? = some s) : Ask.IsOf [s] (.call c) := ⟨s, List.mem_singleton_self _, hc⟩
  cases s with
  | validate => exact asksOnly_bind (asksOnly_ofExcept _) fun _ => trivial
  | provisionAccount => exact asksOnly_bind (asksOnly_call (own rfl)) fun _ => trivial
  | pushImages =>
    refine asksOnly_bind (asksOnly_call (own rfl)) fun registry => ?_
    refine asksOnly_bind (asksOnly_ofExcept _) fun jobs => ?_
    refine asksOnly_bind (publish_asksOnly _ _ _) fun images => ?_
    refine asksOnly_bind ((announce_asksOnly _).mono fun _ => Ask.IsOf.mono (List.nil_subset _)) fun _ => trivial
  | readPriorState => exact asksOnly_bind (asksOnly_call (own rfl)) fun _ => trivial
  | generateFiles =>
    refine asksOnly_bind (asksOnly_ofExcept _) fun images => asksOnly_bind (asksOnly_ofExcept _) fun i => ?_
    exact asksOnly_bind (asksOnly_call (own rfl)) fun _ => trivial
  | diffCheck =>
    simp only [step, diffCheck]
    split
    · trivial
    · exact settleDrift_asksOnly _ _
  | retrieveSecrets => exact asksOnly_bind (asksOnly_call (own rfl)) fun _ => trivial
  | initialiseState => exact asksOnly_bind (asksOnly_call (own rfl)) fun _ => trivial
  | apply =>
    refine asksOnly_bind (asksOnly_ofExcept _) fun flags => ?_
    exact asksOnly_bind (asksOnly_call (own rfl)) fun _ => trivial

/-- some of a deploy's stages, one after the other -/
def stages (l : List Stage) : List (Stage × Pipeline.Body Deploy) :=
  l.map fun s => (s, Pipeline.Body.ofStep (step s))

theorem stages_asksOnly (l : List Stage) (d : Deploy) : (Pipeline.run (stages l) d).AsksOnly (Ask.IsOf l) := by
  refine Pipeline.asksOnly_run trivial (fun _ => trivial) fun x hx s => ?_
  obtain ⟨stage, hs, rfl⟩ := List.mem_map.1 hx
  exact Pipeline.asksOnly_ofStep ((step_asksOnly stage s).mono fun _ => Ask.IsOf.mono (by simpa using hs))

/-! ## Stages one after the other -/

variable {d d' : Deploy} {es : List Asked} {r : Except Fault Deploy} {s : Stage} {l l₁ l₂ : List Stage}
  {out : Deploy × Except StageFault Unit}

theorem play_stages_nil_iff : (Pipeline.run (stages []) d).Play es (.ok out) ↔ es = [] ∧ out = (d, .ok ()) :=
  Pipeline.play_run_nil_iff

/-- a stage is not started, or it fails and the context stays, or it goes through -/
theorem play_stages_cons_iff :
    (Pipeline.run (stages (s :: l)) d).Play es (.ok out) ↔
      (es = [⟨.cancelled, true⟩] ∧ out = (d, .error ⟨s, .cancelled⟩)) ∨
      (∃ f es', es = Pipeline.opening s ++ es' ∧ (step s d).Play es' (.error f) ∧ out = (d, .error ⟨s, f⟩)) ∨
      ∃ d' es₁ es₂, es = Pipeline.opening s ++ (es₁ ++ es₂) ∧ (step s d).Play es₁ (.ok d') ∧
        (Pipeline.run (stages l) d').Play es₂ (.ok out) := by
  refine Pipeline.play_run_cons_iff.trans (or_congr_right (or_congr ?_ ?_))
  · constructor
    · rintro ⟨t, f, es', rfl, hbody, rfl⟩
      obtain ⟨rfl, hstep⟩ := Pipeline.play_ofStep_error_iff.1 hbody
      exact ⟨f, es', rfl, hstep, rfl⟩
    · rintro ⟨f, es', rfl, hstep, rfl⟩
      exact ⟨d, f, es', rfl, Pipeline.play_ofStep_error_iff.2 ⟨rfl, hstep⟩, rfl⟩
  · simp only [Pipeline.play_ofStep_ok_iff]
    rfl

/-- the stages can be cut anywhere -/
theorem play_stages_append_iff :
    (Pipeline.run (stages (l₁ ++ l₂)) d).Play es (.ok out) ↔
      (∃ d' f, out = (d', .error f) ∧ (Pipeline.run (stages l₁) d).Play es (.ok (d', .error f))) ∨
      ∃ d' es₁ es₂, es = es₁ ++ es₂ ∧ (Pipeline.run (stages l₁) d).Play es₁ (.ok (d', .ok ())) ∧
        (Pipeline.run (stages l₂) d').Play es₂ (.ok out) := by
  simp only [stages, List.map_append]
  exact Pipeline.play_run_append_iff

/-! ## The stages that touch the infrastructure's text -/

theorem play_readPriorState_iff :
    (readPriorState d).Play es r ↔
      ∃ a, es = [⟨.call (.readDefinition d.infraDir), a⟩] ∧ r = a.map fun previous => { d with previous } :=
  play_call_done_iff

/-- the text is written once the definition is compiled, and then it is the generated text -/
theorem play_generateFiles_iff :
    (generateFiles d).Play es r ↔
      (∃ f, (d.imagesOr.bind fun images => Infrastructure.ofProject d.project d.account images) = .error f ∧
        es = [] ∧ r = .error f) ∨
      ∃ i a, (d.imagesOr.bind fun images => Infrastructure.ofProject d.project d.account images) = .ok i ∧
        es = [⟨.call (.writeDefinition d.infraDir i), a⟩] ∧
        r = a.map fun text => { d with generated := some text } := by
  simp only [generateFiles, play_ofExcept_bind_iff]
  cases d.imagesOr with
  | error f => simp [Except.bind]
  | ok images =>
    cases h : Infrastructure.ofProject d.project d.account images with
    | error f => simp [Except.bind, h]
    | ok i => simpa [Except.bind, h] using play_call_done_iff

/-- the operator has to be asked: the text differs from a previous one by its digest, and nothing is approved
beforehand -/
def NeedsConsent (autoApprove : Bool) (previous : Option String) (generated : String) : Prop :=
  autoApprove = false ∧ ∃ p, previous = some p ∧ Digest.ofText p ≠ Digest.ofText generated

/-- **The operator is asked once, or not at all**, and the stage goes through just when the answer is yes. -/
theorem diffCheck_play {generated : String} (hg : d.generated = some generated) (h : (diffCheck d).Play es r) :
    (¬ NeedsConsent d.autoApprove d.previous generated ∧ confirmations es = [] ∧ r = .ok d) ∨
    (NeedsConsent d.autoApprove d.previous generated ∧ ∃ decision, confirmations es = [decision] ∧
      (r = .ok d ∧ decision = .ok true ∨ (∃ f, r = .error f) ∧ decision ≠ .ok true)) := by
  simp only [diffCheck, hg, Drift.compare] at h
  cases hp : d.previous with
  | none =>
    simp only [hp, settleDrift] at h
    obtain ⟨_, rfl, hend⟩ := play_say_bind_iff.1 h
    obtain ⟨rfl, rfl⟩ := play_done_iff.1 hend
    exact .inl ⟨by simp [NeedsConsent], rfl, rfl⟩
  | some p =>
    simp only [hp] at h
    by_cases hdigest : Digest.ofText p = Digest.ofText generated
    · simp only [hdigest, if_true, settleDrift] at h
      obtain ⟨_, rfl, hend⟩ := play_say_bind_iff.1 h
      obtain ⟨rfl, rfl⟩ := play_done_iff.1 hend
      exact .inl ⟨by simp [NeedsConsent, hdigest], rfl, rfl⟩
    · simp only [hdigest, if_false, settleDrift] at h
      obtain ⟨_, rfl, hshown⟩ := play_say_bind_iff.1 h
      by_cases happroved : d.autoApprove = true
      · rw [if_pos happroved] at hshown
        obtain ⟨rfl, rfl⟩ := play_done_iff.1 hshown
        exact .inl ⟨by simp [NeedsConsent, happroved], rfl, rfl⟩
      · rw [if_neg happroved] at hshown
        refine .inr ⟨⟨by simpa using happroved, p, rfl, hdigest⟩, ?_⟩
        obtain ⟨f, rfl, hcall⟩ | ⟨accepted, es₁, es₂, rfl, hcall, hend⟩ := play_bind_iff.1 hshown
        · obtain rfl := play_call_iff.1 hcall
          exact ⟨.error f, rfl, .inr ⟨⟨f, rfl⟩, by simp⟩⟩
        · obtain rfl := play_call_iff.1 hcall
          cases accepted with
          | true =>
            obtain ⟨rfl, rfl⟩ := play_done_iff.1 hend
            exact ⟨.ok true, rfl, .inl ⟨rfl, rfl⟩⟩
          | false =>
            obtain ⟨rfl, rfl⟩ := play_fail_iff.1 hend
            exact ⟨.ok false, rfl, .inr ⟨⟨_, rfl⟩, by simp⟩⟩

theorem play_apply_iff :
    (apply d).Play es r ↔
      (∃ f, d.varFlags = .error f ∧ es = [] ∧ r = .error f) ∨
      ∃ flags a, d.varFlags = .ok flags ∧ es = [⟨.call (.apply d.infraDir flags d.autoApprove), a⟩] ∧
        r = a.map fun _ => d := by
  simp only [apply, play_ofExcept_bind_iff]
  constructor
  · rintro (h | ⟨flags, hf, h⟩)
    · exact .inl h
    · obtain ⟨a, h⟩ := play_call_done_iff.1 h
      exact .inr ⟨flags, a, hf, h⟩
  · rintro (h | ⟨flags, a, hf, h⟩)
    · exact .inl h
    · exact .inr ⟨flags, hf, play_call_done_iff.2 ⟨a, h⟩⟩

/-! ## What a deploy was started with stays -/

/-- what is known from the start -/
def aim (d : Deploy) : Project × Account × String × Bool × Nat :=
  (d.project, d.account, d.infraDir, d.autoApprove, d.concurrency)

theorem step_aim (h : (step s d).Play es (.ok d')) : d'.aim = d.aim := by
  cases s with
  | validate =>
    obtain ⟨_, _, _, h⟩ | ⟨_, _, h⟩ := play_ofExcept_bind_iff.1 h
    · cases h
    · cases (play_done_iff.1 h).2; rfl
  | pushImages =>
    obtain ⟨_, h, _⟩ | ⟨_, _, _, _, _, h⟩ := play_bind_iff.1 h
    · cases h
    obtain ⟨_, _, _, h⟩ | ⟨_, _, h⟩ := play_ofExcept_bind_iff.1 h
    · cases h
    obtain ⟨_, h, _⟩ | ⟨_, _, _, _, _, h⟩ := play_bind_iff.1 h
    · cases h
    obtain ⟨_, h, _⟩ | ⟨_, _, _, _, _, h⟩ := play_bind_iff.1 h
    · cases h
    cases (play_done_iff.1 h).2; rfl
  | generateFiles =>
    obtain ⟨_, _, _, h⟩ | ⟨_, a, _, _, h⟩ := play_generateFiles_iff.1 h
    · cases h
    · cases a <;> cases h; rfl
  | diffCheck =>
    have h' := h
    simp only [step, diffCheck] at h
    split at h
    · cases (play_fail_iff.1 h).2
    · rename_i generated hg
      obtain ⟨_, _, h⟩ | ⟨_, _, _, ⟨h, _⟩ | ⟨⟨_, h⟩, _⟩⟩ := diffCheck_play hg h'
      · cases h; rfl
      · cases h; rfl
      · cases h
  | apply =>
    obtain ⟨_, _, _, h⟩ | ⟨_, a, _, _, h⟩ := play_apply_iff.1 h
    · cases h
    · cases a <;> cases h; rfl
  | _ =>
    obtain ⟨a, _, h⟩ := play_call_done_iff.1 h
    cases a <;> cases h; rfl

theorem stages_aim {x : Except StageFault Unit} (h : (Pipeline.run (stages l) d).Play es (.ok (d', x))) :
    d'.aim = d.aim := by
  induction l generalizing d es with
  | nil => cases (play_stages_nil_iff.1 h).2; rfl
  | cons s l ih =>
    rcases play_stages_cons_iff.1 h with ⟨_, hout⟩ | ⟨f, es', _, _, hout⟩ | ⟨t, es₁, es₂, _, hstep, hrest⟩
    · cases hout; rfl
    · cases hout; rfl
    · exact (ih hrest).trans (step_aim hstep)

end Deploy

end Fleet
