/-
The trail of a pipeline: which of its stages a run started, and what came of each.

The bodies are arbitrary, and so are the answers of the surroundings. A body that cancels the token, or anybody else who
does, shows in what the next look at the token finds.
- `Through`: some stages went through, one after the other, each from the context that the one before left.
- `Ends`: the ways in which a run ends behind them: no stage is left, or the token is found cancelled when the next
  stage is about to start, or the next stage is started and its body fails.
- `play_run_iff_trail`: the plays of a pipeline are those of a prefix that went through and of one such end.
-/
import Fleet.Proofs.Deploy.Stages

namespace Fleet

open Dialogue

/-! ## Output -/

def Asked.said? : Asked → Option String
  | ⟨.say text, _⟩ => some text
  | _ => none

/-- what was written for the operator, in order -/
def output (es : List Asked) : List String := es.filterMap Asked.said?

@[simp] theorem output_append (es₁ es₂ : List Asked) : output (es₁ ++ es₂) = output es₁ ++ output es₂ :=
  List.filterMap_append

namespace Pipeline

variable {σ : Type} {stage : Stage} {body : Body σ} {l done rest : List (Stage × Body σ)} {s s' t : σ}
  {es : List Asked} {x : Except StageFault Unit}

/-- the line that announces a stage -/
def announcement (s : Stage) : String := s.progress ++ "...\n"

theorem output_opening (s : Stage) : output (opening s) = [announcement s] := rfl

/-- a stage that was started, and what its body exchanged -/
structure Part where
  stage : Stage
  own : List Asked

/-- what is exchanged by stages that were started: the opening of each, then its body's own -/
def exchanged (parts : List Part) : List Asked := parts.flatMap fun p => opening p.stage ++ p.own

@[simp] theorem exchanged_nil : exchanged [] = [] := rfl

@[simp] theorem exchanged_cons (p : Part) (parts : List Part) :
    exchanged (p :: parts) = opening p.stage ++ (p.own ++ exchanged parts) := by
  simp only [exchanged, List.flatMap_cons, List.append_assoc]

@[simp] theorem exchanged_append (parts more : List Part) :
    exchanged (parts ++ more) = exchanged parts ++ exchanged more := List.flatMap_append

/-- each started stage is announced, and what its body writes follows -/
theorem output_exchanged (parts : List Part) :
    output (exchanged parts) = parts.flatMap fun p => announcement p.stage :: output p.own := by
  induction parts with
  | nil => rfl
  | cons p parts ih =>
    rw [exchanged_cons, output_append, output_append, output_opening, ih, List.flatMap_cons]
    rfl

/-! ## Stages that went through -/

/-- all stages of the list went through in order, each from the context that the one before left -/
inductive Through : List (Stage × Body σ) → σ → List Part → σ → Prop
  | nil (s : σ) : Through [] s [] s
  | cons {stage : Stage} {body : Body σ} {rest : List (Stage × Body σ)} {s s' t : σ} {own : List Asked}
      {parts : List Part} (hbody : (body s).Play own (.ok (s', .ok ()))) (hrest : Through rest s' parts t) :
      Through ((stage, body) :: rest) s (⟨stage, own⟩ :: parts) t

/-- every stage of the list was started, and started once -/
theorem Through.stages_eq {parts : List Part} (h : Through l s parts t) : parts.map Part.stage = l.map Prod.fst := by
  induction h with
  | nil s => rfl
  | cons hbody hrest ih => rw [List.map_cons, List.map_cons, ih]

/-- a pipeline succeeds just if all its stages go through -/
theorem play_run_ok_iff :
    (run l s).Play es (.ok (t, .ok ())) ↔ ∃ parts, Through l s parts t ∧ es = exchanged parts := by
  induction l generalizing s es with
  | nil =>
    rw [play_run_nil_iff]
    constructor
    · rintro ⟨rfl, hout⟩
      cases hout
      exact ⟨[], .nil _, rfl⟩
    · rintro ⟨parts, hthrough, rfl⟩
      cases hthrough
      exact ⟨rfl, rfl⟩
  | cons head rest ih =>
    obtain ⟨stage, body⟩ := head
    rw [play_run_cons_iff]
    constructor
    · rintro (⟨-, hout⟩ | ⟨_, _, _, -, -, hout⟩ | ⟨s', own, es₂, rfl, hbody, hrest⟩)
      · cases hout
      · cases hout
      · obtain ⟨parts, hthrough, rfl⟩ := ih.1 hrest
        exact ⟨⟨stage, own⟩ :: parts, .cons hbody hthrough, by rw [exchanged_cons]⟩
    · rintro ⟨parts, hthrough, rfl⟩
      cases hthrough with
      | cons hbody hrest =>
        exact .inr (.inr ⟨_, _, _, exchanged_cons _ _, hbody, ih.2 ⟨_, hrest, rfl⟩⟩)

/-! ## How a run ends -/

/-- how a run ends when `rest` is left to do: `last` is what it still starts, and `look` what it exchanges after that -/
inductive Ends : List (Stage × Body σ) → σ → List Part → List Asked → σ → Except StageFault Unit → Prop
  /-- no stage is left -/
  | finished (s : σ) : Ends [] s [] [] s (.ok ())
  /-- the token is cancelled when the next stage is about to start, and the stage is not announced -/
  | cancelled (stage : Stage) (body : Body σ) (rest : List (Stage × Body σ)) (s : σ) :
      Ends ((stage, body) :: rest) s [] [⟨.cancelled, true⟩] s (.error ⟨stage, .cancelled⟩)
  /-- the next stage is started, and its body fails -/
  | failed {stage : Stage} {body : Body σ} {s t : σ} {own : List Asked} {f : Fault}
      (hbody : (body s).Play own (.ok (t, .error f))) (rest : List (Stage × Body σ)) :
      Ends ((stage, body) :: rest) s [⟨stage, own⟩] [] t (.error ⟨stage, f⟩)

/-- a run ends well just if no stage is left -/
theorem Ends.ok_iff {last : List Part} {look : List Asked} (h : Ends rest s last look t x) :
    x = .ok () ↔ rest = [] := by
  cases h <;> simp

/-- what is started last is the next stage -/
theorem Ends.stages_isPrefix {last : List Part} {look : List Asked} (h : Ends rest s last look t x) :
    last.map Part.stage <+: rest.map Prod.fst := by
  cases h with
  | finished s => exact List.nil_prefix
  | cancelled stage body rest s => exact List.nil_prefix
  | failed hbody rest => exact ⟨rest.map Prod.fst, rfl⟩

/-- a look at the token writes nothing -/
theorem Ends.output_look {last : List Part} {look : List Asked} (h : Ends rest s last look t x) : output look = [] := by
  cases h <;> rfl

/-- what is left to do can be run from the context that is left just as it ends -/
theorem play_run_of_ends {last : List Part} {look : List Asked} (h : Ends rest s last look t x) :
    (run rest s).Play (exchanged last ++ look) (.ok (t, x)) := by
  cases h with
  | finished s => exact play_run_nil_iff.2 ⟨rfl, rfl⟩
  | cancelled stage body rest s => exact play_run_cons_iff.2 (.inl ⟨rfl, rfl⟩)
  | failed hbody rest => exact play_run_cons_iff.2 (.inr (.inl ⟨_, _, _, by simp, hbody, rfl⟩))

/-- every run goes through some of its stages and ends behind them -/
theorem exists_trail (h : (run l s).Play es (.ok (t, x))) :
    ∃ done rest parts s' last look, l = done ++ rest ∧ Through done s parts s' ∧ Ends rest s' last look t x ∧
      es = exchanged (parts ++ last) ++ look := by
  induction l generalizing s es with
  | nil =>
    obtain ⟨rfl, hout⟩ := play_run_nil_iff.1 h
    cases hout
    exact ⟨[], [], [], _, [], [], rfl, .nil _, .finished _, rfl⟩
  | cons head rest ih =>
    obtain ⟨stage, body⟩ := head
    rcases play_run_cons_iff.1 h with ⟨rfl, hout⟩ | ⟨s', f, own, rfl, hbody, hout⟩ | ⟨s', own, es₂, rfl, hbody, hrest⟩
    · cases hout
      exact ⟨[], _, [], _, [], _, rfl, .nil _, .cancelled stage body rest _, rfl⟩
    · cases hout
      exact ⟨[], _, [], s, _, [], rfl, .nil s, .failed hbody rest, by simp⟩
    · obtain ⟨done, rest', parts, u, last, look, rfl, hthrough, hends, rfl⟩ := ih hrest
      exact ⟨(stage, body) :: done, rest', ⟨stage, own⟩ :: parts, u, last, look, rfl, .cons hbody hthrough, hends,
        by simp⟩

/-- **A run goes through a prefix of its stages, and accounts for it.** The stages that went through are the first ones
of the list, in order, each run once and from the context that the one before left. Behind them the run ends: no stage
is left, and only then it succeeds; or the token is found cancelled when the next stage is about to start, which is not
announced; or the next stage is started, and its body's fault is the run's. Nothing else is exchanged. What is written
is, for each stage that was started, its announcement and then what its body writes. -/
theorem play_run_iff_trail :
    (run l s).Play es (.ok (t, x)) ↔
      ∃ done rest parts s' last look, l = done ++ rest ∧ Through done s parts s' ∧ Ends rest s' last look t x ∧
        es = exchanged (parts ++ last) ++ look ∧
        output es = (parts ++ last).flatMap (fun p => announcement p.stage :: output p.own) ∧
        (parts ++ last).map Part.stage <+: l.map Prod.fst ∧
        (x = .ok () ↔ rest = []) := by
  constructor
  · intro h
    obtain ⟨done, rest, parts, s', last, look, rfl, hthrough, hends, rfl⟩ := exists_trail h
    refine ⟨done, rest, parts, s', last, look, rfl, hthrough, hends, rfl, ?_, ?_, hends.ok_iff⟩
    · rw [output_append, output_exchanged, hends.output_look, List.append_nil]
    · rw [List.map_append, List.map_append, hthrough.stages_eq]
      exact (List.prefix_append_right_inj _).2 hends.stages_isPrefix
  · rintro ⟨done, rest, parts, s', last, look, rfl, hthrough, hends, rfl, -, -, -⟩
    refine play_run_append_iff.2 ?_
    have hdone := play_run_ok_iff.2 ⟨parts, hthrough, rfl⟩
    refine .inr ⟨s', exchanged parts, exchanged last ++ look, by simp, hdone, play_run_of_ends hends⟩

end Pipeline

end Fleet
