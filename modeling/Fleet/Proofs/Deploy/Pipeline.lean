/-
Plays of a pipeline.

A play of `Pipeline.run` is the plays of its stages in order, each behind its opening (the token was not cancelled,
the stage was announced), up to the first stage that failed or found the token cancelled.
- `play_run_cons_iff`: what the first stage of a pipeline can do, in full. Everything else about pipelines follows.
- `play_run_append_iff`: a pipeline can be cut anywhere. Its second part runs only if the first part went through.
- `asksOnly_run`: a pipeline asks what its bodies ask, looks at the token, and announces.
-/
import Fleet.Deploy.Pipeline
import Fleet.Proofs.Action

namespace Fleet

open Dialogue

namespace Pipeline

variable {σ : Type} {stage : Stage} {body : Body σ} {l l₁ l₂ rest : List (Stage × Body σ)} {s s' : σ}
  {es : List Asked} {out : σ × Except StageFault Unit}

/-- what is exchanged before a stage's body runs -/
def opening (s : Stage) : List Asked := [⟨.cancelled, false⟩, ⟨.say (s.progress ++ "...\n"), ()⟩]

theorem play_run_nil_iff : (run ([] : List (Stage × Body σ)) s).Play es (.ok out) ↔ es = [] ∧ out = (s, .ok ()) := by
  simp only [run, play_done_iff, Except.ok.injEq]

/-- a pipeline stops before its first stage, stops in it, or goes through it and on -/
theorem play_run_cons_iff :
    (run ((stage, body) :: rest) s).Play es (.ok out) ↔
      (es = [⟨.cancelled, true⟩] ∧ out = (s, .error ⟨stage, .cancelled⟩)) ∨
      (∃ s' f es', es = opening stage ++ es' ∧ (body s).Play es' (.ok (s', .error f)) ∧
        out = (s', .error ⟨stage, f⟩)) ∨
      ∃ s' es₁ es₂, es = opening stage ++ (es₁ ++ es₂) ∧ (body s).Play es₁ (.ok (s', .ok ())) ∧
        (run rest s').Play es₂ (.ok out) := by
  simp only [run, play_cancelled_bind_iff]
  constructor
  · rintro ⟨c, es, rfl, hrest⟩
    cases c with
    | true =>
      obtain ⟨rfl, hout⟩ := play_done_iff.1 hrest
      cases hout
      exact .inl ⟨rfl, rfl⟩
    | false =>
      right
      obtain ⟨es, rfl, hsaid⟩ := play_say_bind_iff.1 hrest
      obtain ⟨_, h, _⟩ | ⟨⟨s', ran⟩, es₁, es₂, rfl, hbody, h⟩ := play_bind_iff.1 hsaid
      · cases h
      cases ran with
      | ok _ => exact .inr ⟨s', es₁, es₂, rfl, hbody, h⟩
      | error f =>
        obtain ⟨rfl, hout⟩ := play_done_iff.1 h
        cases hout
        exact .inl ⟨s', f, es₁, by simp [opening], hbody, rfl⟩
  · rintro (⟨rfl, rfl⟩ | ⟨s', f, es', rfl, hbody, rfl⟩ | ⟨s', es₁, es₂, rfl, hbody, h⟩)
    · exact ⟨true, [], rfl, .done _⟩
    · refine ⟨false, _, rfl, play_say_bind_iff.2 ⟨es', rfl, ?_⟩⟩
      exact play_bind_iff.2 (.inr ⟨_, es', [], by simp, hbody, .done _⟩)
    · refine ⟨false, _, rfl, play_say_bind_iff.2 ⟨_, rfl, ?_⟩⟩
      exact play_bind_iff.2 (.inr ⟨_, es₁, es₂, rfl, hbody, h⟩)

/-- **A pipeline can be cut.** Either its first part stops, and nothing more happens, or the first part goes through
and the second part starts from what it left. -/
theorem play_run_append_iff :
    (run (l₁ ++ l₂) s).Play es (.ok out) ↔
      (∃ s' f, out = (s', .error f) ∧ (run l₁ s).Play es (.ok (s', .error f))) ∨
      ∃ s' es₁ es₂, es = es₁ ++ es₂ ∧ (run l₁ s).Play es₁ (.ok (s', .ok ())) ∧ (run l₂ s').Play es₂ (.ok out) := by
  induction l₁ generalizing s es with
  | nil =>
    simp only [List.nil_append, play_run_nil_iff]
    constructor
    · intro h; exact .inr ⟨s, [], es, rfl, ⟨rfl, rfl⟩, h⟩
    · rintro (⟨s', f, -, -, h⟩ | ⟨_, _, es₂, rfl, ⟨rfl, h⟩, h₂⟩)
      · cases h
      · cases h; exact h₂
  | cons x l₁ ih =>
    obtain ⟨stage, body⟩ := x
    rw [List.cons_append, play_run_cons_iff]
    constructor
    · rintro (⟨rfl, rfl⟩ | ⟨s', f, es', rfl, hbody, rfl⟩ | ⟨s', es₁, es₂, rfl, hbody, h⟩)
      · exact .inl ⟨_, _, rfl, play_run_cons_iff.2 (.inl ⟨rfl, rfl⟩)⟩
      · exact .inl ⟨_, _, rfl, play_run_cons_iff.2 (.inr (.inl ⟨s', f, es', rfl, hbody, rfl⟩))⟩
      · rcases ih.1 h with ⟨t, f, rfl, h₁⟩ | ⟨t, es₃, es₄, rfl, h₁, h₂⟩
        · exact .inl ⟨t, f, rfl, play_run_cons_iff.2 (.inr (.inr ⟨s', es₁, es₂, rfl, hbody, h₁⟩))⟩
        · refine .inr ⟨t, opening stage ++ (es₁ ++ es₃), es₄, by simp, ?_, h₂⟩
          exact play_run_cons_iff.2 (.inr (.inr ⟨s', es₁, es₃, rfl, hbody, h₁⟩))
    · rintro (⟨t, f, rfl, h⟩ | ⟨t, es₁, es₂, rfl, h₁, h₂⟩)
      · rcases play_run_cons_iff.1 h with ⟨hes, ho⟩ | ⟨s', g, es', hes, hbody, ho⟩ | ⟨s', es₁, es₂, hes, hbody, h₁⟩
        · exact .inl ⟨hes, ho⟩
        · exact .inr (.inl ⟨s', g, es', hes, hbody, ho⟩)
        · exact .inr (.inr ⟨s', es₁, es₂, hes, hbody, ih.2 (.inl ⟨t, f, rfl, h₁⟩)⟩)
      · rcases play_run_cons_iff.1 h₁ with ⟨rfl, h⟩ | ⟨s', g, es', rfl, hbody, h⟩ | ⟨s', es₃, es₄, rfl, hbody, h⟩
        · cases h
        · cases h
        · refine .inr (.inr ⟨s', es₃, es₄ ++ es₂, by simp, hbody, ?_⟩)
          exact ih.2 (.inr ⟨t, es₄, es₂, rfl, h, h₂⟩)

/-! ## Bodies that keep their context when they fail -/

theorem play_ofStep_ok_iff {f : σ → Action Fault σ} :
    (Body.ofStep f s).Play es (.ok (s', .ok ())) ↔ (f s).Play es (.ok s') := by
  simp only [Body.ofStep, play_bind_iff, play_attempt_iff, Except.ok.injEq, reduceCtorEq, false_and, exists_false,
    false_or, exists_eq_left']
  constructor
  · rintro ⟨x, es₁, es₂, rfl, h, hx⟩
    cases x with
    | ok t => obtain ⟨rfl, ht⟩ := play_done_iff.1 hx; cases ht; simpa using h
    | error e => obtain ⟨rfl, ht⟩ := play_done_iff.1 hx; cases ht
  · intro h
    exact ⟨.ok s', es, [], by simp, h, .done _⟩

theorem play_ofStep_error_iff {f : σ → Action Fault σ} {e : Fault} :
    (Body.ofStep f s).Play es (.ok (s', .error e)) ↔ s' = s ∧ (f s).Play es (.error e) := by
  simp only [Body.ofStep, play_bind_iff, play_attempt_iff, Except.ok.injEq, reduceCtorEq, false_and, exists_false,
    false_or, exists_eq_left']
  constructor
  · rintro ⟨x, es₁, es₂, rfl, h, hx⟩
    cases x with
    | ok t => obtain ⟨rfl, ht⟩ := play_done_iff.1 hx; cases ht
    | error e => obtain ⟨rfl, ht⟩ := play_done_iff.1 hx; cases ht; exact ⟨rfl, by simpa using h⟩
  · rintro ⟨rfl, h⟩
    exact ⟨.error e, es, [], by simp, h, .done _⟩

/-! ## What a pipeline can ask -/

/-- a pipeline asks what its bodies ask, looks at the token and announces its stages -/
theorem asksOnly_run {P : Ask → Prop} (hcancelled : P .cancelled) (hsay : ∀ text, P (.say text))
    (hbody : ∀ x ∈ l, ∀ s, (x.2 s).AsksOnly P) : (run l s).AsksOnly P := by
  induction l generalizing s with
  | nil => trivial
  | cons x l ih =>
    obtain ⟨stage, body⟩ := x
    refine asksOnly_bind ⟨hcancelled, fun _ => trivial⟩ fun c => ?_
    cases c with
    | true => trivial
    | false =>
      refine asksOnly_bind ⟨hsay _, fun _ => trivial⟩ fun _ => asksOnly_bind (hbody _ List.mem_cons_self s) ?_
      rintro ⟨s', ran⟩
      cases ran with
      | ok _ => exact ih fun y hy => hbody y (List.mem_cons_of_mem _ hy)
      | error f => trivial

theorem asksOnly_ofStep {P : Ask → Prop} {f : σ → Action Fault σ} (h : (f s).AsksOnly P) :
    (Body.ofStep f s).AsksOnly P := by
  refine asksOnly_bind (asksOnly_attempt h) fun x => ?_
  cases x <;> trivial

end Pipeline

end Fleet
