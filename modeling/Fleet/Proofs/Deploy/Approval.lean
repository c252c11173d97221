/-
Consent: a deploy changes the infrastructure once at the most, at its very end, and not without approval.

The collaborators are arbitrary. A play of a deploy may have any answers, failures and a token that is cancelled at
any point.
- `play_run_cases`: a deploy stops while it drafts the infrastructure's text, or has drafted it and goes on to check it.
- `needsConsent_of_asked`: the operator is asked only if the text drifted and nothing was approved beforehand.
- `apply_is_approved`: what a deploy with an apply has done before.
-/
import Fleet.Proofs.Deploy.Stages
import Fleet.Rehearsal

namespace Fleet

open Dialogue

/-- the call that changes infrastructure -/
def Call.isApply : Call → Bool
  | .apply _ _ _ => true
  | _ => false

theorem Call.stage?_of_isApply {c : Call} (h : c.isApply = true) : c.stage? = some .apply := by
  cases c with
  | apply dir flags autoApprove => rfl
  | _ => simp [Call.isApply] at h

/-- without a call of the last stage nothing is applied -/
theorem not_isApply_of_mem_calls {l : List Stage} {es : List Asked} (h : ∀ e ∈ es, e.1.IsOf l) (hl : .apply ∉ l)
    {c : Call} (hc : c ∈ calls es) : c.isApply = false := by
  obtain ⟨s, hs, hstage⟩ := stage_of_mem_calls h hc
  by_contra hne
  have := Call.stage?_of_isApply (by simpa using hne)
  rw [hstage] at this
  cases this
  exact hl hs

theorem isOf_opening (s : Stage) (l : List Stage) : ∀ e ∈ Pipeline.opening s, e.1.IsOf l := by
  intro e he
  simp only [Pipeline.opening, List.mem_cons, List.not_mem_nil, or_false] at he
  rcases he with rfl | rfl <;> trivial

namespace Deploy

variable {d d' : Deploy} {es : List Asked} {l : List Stage} {out : Deploy × Except StageFault Unit}
  {previous : Option String} {generated : String}

/-! ## Drafting -/

/-- the stages up to the one that writes the infrastructure's text -/
def drafting : List Stage := [.validate, .provisionAccount, .pushImages, .readPriorState, .generateFiles]

/-- the stages that follow -/
def checking : List Stage := [.diffCheck, .retrieveSecrets, .initialiseState]

theorem run_eq (d : Deploy) : d.run = Pipeline.run (stages (drafting ++ (checking ++ [.apply]))) d := rfl

/-- a text was read, later one was written, and nothing else was read, written or asked -/
def Drafted (dir : String) (es : List Asked) (previous : Option String) (generated : String) : Prop :=
  ∃ es₁ es₂ i, es = es₁ ++ ⟨.call (.readDefinition dir), .ok previous⟩ ::
      (es₂ ++ [⟨.call (.writeDefinition dir i), .ok generated⟩]) ∧
    (∀ e ∈ es₁, e.1.IsOf [.validate, .provisionAccount, .pushImages]) ∧ ∀ e ∈ es₂, e.1.IsOf []

theorem Drafted.readings_eq {dir : String} (h : Drafted dir es previous generated) : readings es = [previous] := by
  obtain ⟨es₁, es₂, i, rfl, h₁, h₂⟩ := h
  rw [readings_append, readings_eq_nil h₁ (by decide), List.nil_append]
  change previous :: readings (es₂ ++ _) = _
  rw [readings_append, readings_eq_nil h₂ (by decide)]
  rfl

theorem Drafted.writings_eq {dir : String} (h : Drafted dir es previous generated) : writings es = [generated] := by
  obtain ⟨es₁, es₂, i, rfl, h₁, h₂⟩ := h
  rw [writings_append, writings_eq_nil h₁ (by decide), List.nil_append]
  change writings (es₂ ++ _) = _
  rw [writings_append, writings_eq_nil h₂ (by decide)]
  rfl

/-- a drafting that goes through, in full: images are published, a text is read, the definition is compiled and
written -/
theorem play_drafting_iff :
    (Pipeline.run (stages drafting) d).Play es (.ok (d', .ok ())) ↔
      ∃ d₁ es₁ previous i generated,
        (Pipeline.run (stages [.validate, .provisionAccount, .pushImages]) d).Play es₁ (.ok (d₁, .ok ())) ∧
        (d₁.imagesOr.bind fun images => Infrastructure.ofProject d₁.project d₁.account images) = .ok i ∧
        es = es₁ ++ (Pipeline.opening .readPriorState ++ ⟨.call (.readDefinition d₁.infraDir), .ok previous⟩ ::
          (Pipeline.opening .generateFiles ++ [⟨.call (.writeDefinition d₁.infraDir i), .ok generated⟩])) ∧
        d' = { d₁ with previous, generated := some generated } := by
  rw [show drafting = [.validate, .provisionAccount, .pushImages] ++ [.readPriorState, .generateFiles] from rfl,
    play_stages_append_iff]
  constructor
  · rintro (⟨_, _, hout, _⟩ | ⟨d₁, es₁, es₂, rfl, hpushed, hrest⟩)
    · cases hout
    rcases play_stages_cons_iff.1 hrest with ⟨_, hout⟩ | ⟨_, _, _, _, hout⟩ | ⟨d₂, es₃, es₄, rfl, hread, hrest⟩
    · cases hout
    · cases hout
    rcases play_stages_cons_iff.1 hrest with ⟨_, hout⟩ | ⟨_, _, _, _, hout⟩ | ⟨d₃, es₅, es₆, rfl, hwrite, hend⟩
    · cases hout
    · cases hout
    obtain ⟨rfl, hend⟩ := play_stages_nil_iff.1 hend
    cases hend
    obtain ⟨previous, rfl, hd₂⟩ := play_readPriorState_iff.1 hread
    cases previous with
    | error f => cases hd₂
    | ok previous =>
      cases hd₂
      obtain ⟨_, _, _, hout⟩ | ⟨i, text, hi, rfl, hout⟩ := play_generateFiles_iff.1 hwrite
      · cases hout
      · cases text with
        | error f => cases hout
        | ok text =>
          cases hout
          exact ⟨d₁, es₁, previous, i, text, hpushed, hi, by simp, rfl⟩
  · rintro ⟨d₁, es₁, previous, i, generated, hpushed, hi, rfl, rfl⟩
    refine .inr ⟨d₁, es₁, _, rfl, hpushed, play_stages_cons_iff.2 (.inr (.inr ?_))⟩
    refine ⟨{ d₁ with previous }, [_], _, rfl, play_readPriorState_iff.2 ⟨.ok previous, rfl, rfl⟩, ?_⟩
    refine play_stages_cons_iff.2 (.inr (.inr ⟨_, [_], [], rfl, ?_, play_stages_nil_iff.2 ⟨rfl, rfl⟩⟩))
    exact play_generateFiles_iff.2 (.inr ⟨i, .ok generated, hi, rfl, rfl⟩)

/-- a drafted text is in the context that the drafting leaves -/
theorem drafted_of_play (h : (Pipeline.run (stages drafting) d).Play es (.ok (d', .ok ()))) :
    ∃ generated, Drafted d.infraDir es d'.previous generated ∧ d'.generated = some generated := by
  obtain ⟨d₁, es₁, previous, i, generated, hpushed, _, rfl, rfl⟩ := play_drafting_iff.1 h
  have hdir : d₁.infraDir = d.infraDir := congrArg (fun a => a.2.2.1) (stages_aim hpushed)
  refine ⟨generated, ⟨es₁ ++ Pipeline.opening .readPriorState, Pipeline.opening .generateFiles, i, ?_, ?_, ?_⟩, rfl⟩
  · simp [hdir]
  · intro e he
    rcases List.mem_append.1 he with he | he
    · exact hpushed.asked (stages_asksOnly _ _) e he
    · exact isOf_opening _ _ e he
  · exact isOf_opening _ _

/-- a drafting that stops has written nothing -/
theorem writings_of_stopped {f : StageFault} (h : (Pipeline.run (stages drafting) d).Play es (.ok (d', .error f))) :
    writings es = [] := by
  rw [show drafting = [.validate, .provisionAccount, .pushImages, .readPriorState] ++ [.generateFiles] from rfl,
    play_stages_append_iff] at h
  rcases h with ⟨_, _, _, hfirst⟩ | ⟨d₁, es₁, es₂, rfl, hfirst, hlast⟩
  · exact writings_eq_nil (hfirst.asked (stages_asksOnly _ _)) (by decide)
  · rw [writings_append, writings_eq_nil (hfirst.asked (stages_asksOnly _ _)) (by decide), List.nil_append]
    rcases play_stages_cons_iff.1 hlast with ⟨rfl, _⟩ | ⟨_, es', rfl, hwrite, _⟩ | ⟨_, _, _, _, _, hend⟩
    · rfl
    · obtain ⟨_, _, rfl, _⟩ | ⟨i, text, _, rfl, hout⟩ := play_generateFiles_iff.1 hwrite
      · rfl
      · cases text with
        | error f => rfl
        | ok text => cases hout
    · cases (play_stages_nil_iff.1 hend).2

/-- **A deploy drafts, and only then it goes on.** -/
theorem play_run_cases (h : d.run.Play es (.ok out)) :
    (writings es = [] ∧ ∀ e ∈ es, e.1.IsOf drafting) ∨
    ∃ d' es₁ es₂ generated, es = es₁ ++ es₂ ∧ Drafted d.infraDir es₁ d'.previous generated ∧
      (∀ e ∈ es₁, e.1.IsOf drafting) ∧ d'.generated = some generated ∧ d'.aim = d.aim ∧
      (Pipeline.run (stages (checking ++ [.apply])) d').Play es₂ (.ok out) := by
  rw [run_eq, play_stages_append_iff] at h
  rcases h with ⟨d', f, _, hstopped⟩ | ⟨d', es₁, es₂, rfl, hdrafted, hrest⟩
  · exact .inl ⟨writings_of_stopped hstopped, hstopped.asked (stages_asksOnly _ _)⟩
  · obtain ⟨generated, hshape, hgenerated⟩ := drafted_of_play hdrafted
    exact .inr ⟨d', es₁, es₂, generated, rfl, hshape, hdrafted.asked (stages_asksOnly _ _), hgenerated,
      stages_aim hdrafted, hrest⟩

/-! ## Checking -/

/-- from the check of the differences on, the operator is asked once at the most, and only if consent is needed; a run
that comes to its end was told yes, or did not have to ask -/
theorem consent_of_play (hg : d.generated = some generated) (hl : .diffCheck ∉ l)
    (h : (Pipeline.run (stages (.diffCheck :: l)) d).Play es (.ok out)) :
    (confirmations es = [] ∧ (out.2 = .ok () → ¬ NeedsConsent d.autoApprove d.previous generated)) ∨
    (NeedsConsent d.autoApprove d.previous generated ∧
      ∃ decision, confirmations es = [decision] ∧ (out.2 = .ok () → decision = .ok true)) := by
  rcases play_stages_cons_iff.1 h with ⟨rfl, rfl⟩ | ⟨f, es', rfl, hcheck, rfl⟩ | ⟨d', es₁, es₂, rfl, hcheck, hrest⟩
  · exact .inl ⟨rfl, by simp⟩
  · rcases diffCheck_play hg hcheck with ⟨_, _, hout⟩ | ⟨hneeds, decision, hasked, _⟩
    · cases hout
    · exact .inr ⟨hneeds, decision, hasked, by simp⟩
  · have hquiet : confirmations es₂ = [] := confirmations_eq_nil (hrest.asked (stages_asksOnly _ _)) hl
    have hsplit : confirmations (Pipeline.opening .diffCheck ++ (es₁ ++ es₂)) = confirmations es₁ := by
      simp [hquiet]
    rw [hsplit]
    rcases diffCheck_play hg hcheck with ⟨hneeds, hasked, _⟩ | ⟨hneeds, decision, hasked, ⟨_, rfl⟩ | ⟨⟨_, hout⟩, _⟩⟩
    · exact .inl ⟨hasked, fun _ => hneeds⟩
    · exact .inr ⟨hneeds, _, hasked, fun _ => rfl⟩
    · cases hout

/-- what stands between a drafted text and its apply -/
def Consented (autoApprove : Bool) (es : List Asked) : Prop :=
  readings es = [none] ∨
  (∃ p w, readings es = [some p] ∧ writings es = [w] ∧ Digest.ofText p = Digest.ofText w) ∨
  autoApprove = true ∨ confirmations es = [.ok true]

/-- in a deploy that is asked about drift, the text that was read differs from the text that was written -/
theorem needsConsent_of_asked (h : d.run.Play es (.ok out)) {decision : Except Fault Bool}
    (hd : decision ∈ confirmations es) :
    ∃ previous generated, readings es = [previous] ∧ writings es = [generated] ∧
      NeedsConsent d.autoApprove previous generated ∧ confirmations es = [decision] := by
  rcases play_run_cases h with ⟨_, hdrafting⟩ | ⟨d', es₁, es₂, generated, rfl, hdrafted, hdrafting, hg, haim, hrest⟩
  · rw [confirmations_eq_nil hdrafting (by decide)] at hd
    cases hd
  · have hquiet := hrest.asked (stages_asksOnly _ _)
    have hauto : d'.autoApprove = d.autoApprove := congrArg (fun a => a.2.2.2.1) haim
    rw [confirmations_append, confirmations_eq_nil hdrafting (by decide), List.nil_append] at hd ⊢
    rcases consent_of_play (l := [.retrieveSecrets, .initialiseState, .apply]) hg (by decide) hrest with
      ⟨hasked, _⟩ | ⟨hneeds, decision', hasked, _⟩
    · rw [hasked] at hd
      cases hd
    · rw [hasked, List.mem_singleton] at hd
      refine ⟨d'.previous, generated, ?_, ?_, hauto ▸ hneeds, hd ▸ hasked⟩
      · rw [readings_append, hdrafted.readings_eq, readings_eq_nil hquiet (by decide)]
        rfl
      · rw [writings_append, hdrafted.writings_eq, writings_eq_nil hquiet (by decide)]
        rfl

/-- a deploy in which all stages but the last have completed has consent -/
theorem consented_of_prepared (h : (Pipeline.run (stages (drafting ++ checking)) d).Play es (.ok (d', .ok ()))) :
    Consented d.autoApprove es := by
  rw [play_stages_append_iff] at h
  rcases h with ⟨_, _, hout, _⟩ | ⟨d₁, es₁, es₂, rfl, hdraft, hcheck⟩
  · cases hout
  obtain ⟨generated, hdrafted, hg⟩ := drafted_of_play hdraft
  have hauto : d₁.autoApprove = d.autoApprove := congrArg (fun a => a.2.2.2.1) (stages_aim hdraft)
  have hquiet := hcheck.asked (stages_asksOnly _ _)
  have hreadings : readings (es₁ ++ es₂) = [d₁.previous] := by
    rw [readings_append, hdrafted.readings_eq, readings_eq_nil hquiet (by decide)]
    rfl
  have hwritings : writings (es₁ ++ es₂) = [generated] := by
    rw [writings_append, hdrafted.writings_eq, writings_eq_nil hquiet (by decide)]
    rfl
  rcases consent_of_play hg (by decide) hcheck with ⟨_, hneeds⟩ | ⟨_, decision, hasked, hyes⟩
  · by_cases happroved : d.autoApprove = true
    · exact .inr (.inr (.inl happroved))
    cases hp : d₁.previous with
    | none => exact .inl (by rw [hreadings, hp])
    | some p =>
      refine .inr (.inl ⟨p, generated, by rw [hreadings, hp], hwritings, ?_⟩)
      by_contra hdigest
      exact hneeds rfl ⟨by simpa [hauto] using happroved, p, hp, hdigest⟩
  · refine .inr (.inr (.inr ?_))
    rw [confirmations_append, confirmations_eq_nil (hdraft.asked (stages_asksOnly _ _)) (by decide), hasked,
      hyes rfl]
    rfl

/-! ## Applying -/

/-- the last stage makes one call, or none -/
theorem calls_applyStage (h : (Pipeline.run (stages [.apply]) d).Play es (.ok out)) :
    calls es = [] ∨ ∃ flags, d.varFlags = .ok flags ∧ calls es = [.apply d.infraDir flags d.autoApprove] := by
  rcases play_stages_cons_iff.1 h with ⟨rfl, _⟩ | ⟨f, es', rfl, happly, _⟩ | ⟨d', es₁, es₂, rfl, happly, hend⟩
  · exact .inl rfl
  · obtain ⟨_, _, rfl, _⟩ | ⟨flags, a, hflags, rfl, _⟩ := play_apply_iff.1 happly
    · exact .inl rfl
    · exact .inr ⟨flags, hflags, rfl⟩
  · obtain ⟨rfl, _⟩ := play_stages_nil_iff.1 hend
    obtain ⟨_, _, _, hout⟩ | ⟨flags, a, hflags, rfl, _⟩ := play_apply_iff.1 happly
    · cases hout
    · exact .inr ⟨flags, hflags, rfl⟩

/-- a deploy applies nothing, or it is prepared first, and its apply is the last call -/
theorem play_run_apply (h : d.run.Play es (.ok out)) :
    (∀ c ∈ calls es, c.isApply = false) ∨
    ∃ d' before after flags, es = before ++ after ∧
      (Pipeline.run (stages (drafting ++ checking)) d).Play before (.ok (d', .ok ())) ∧
      d'.varFlags = .ok flags ∧ calls after = [.apply d.infraDir flags d.autoApprove] ∧
      (∀ e ∈ after, e.1.IsOf [.apply]) := by
  rw [show d.run = Pipeline.run (stages ((drafting ++ checking) ++ [.apply])) d from rfl, play_stages_append_iff] at h
  rcases h with ⟨_, _, _, hprepared⟩ | ⟨d', before, after, rfl, hprepared, happly⟩
  · exact .inl fun c hc => not_isApply_of_mem_calls (hprepared.asked (stages_asksOnly _ _)) (by decide) hc
  · rcases calls_applyStage happly with hnone | ⟨flags, hflags, hcalls⟩
    · left
      intro c hc
      rw [calls_append, hnone, List.append_nil] at hc
      exact not_isApply_of_mem_calls (hprepared.asked (stages_asksOnly _ _)) (by decide) hc
    · have haim := stages_aim hprepared
      have hdir : d'.infraDir = d.infraDir := congrArg (fun a => a.2.2.1) haim
      have hauto : d'.autoApprove = d.autoApprove := congrArg (fun a => a.2.2.2.1) haim
      rw [hdir, hauto] at hcalls
      exact .inr ⟨d', before, after, flags, rfl, hprepared, hflags, hcalls, happly.asked (stages_asksOnly _ _)⟩

/-- a deploy that applies has consent -/
theorem consented_of_apply (h : d.run.Play es (.ok out)) {c : Call} (hc : c ∈ calls es) (happly : c.isApply = true) :
    Consented d.autoApprove es := by
  rcases play_run_apply h with hnone | ⟨d', before, after, flags, rfl, hprepared, _, _, hafter⟩
  · rw [hnone c hc] at happly
    cases happly
  · have hconsent := consented_of_prepared hprepared
    simp only [Consented, readings_append, writings_append, confirmations_append,
      readings_eq_nil hafter (by decide), writings_eq_nil hafter (by decide),
      confirmations_eq_nil hafter (by decide), List.append_nil]
    exact hconsent

/-- **No apply without approval.** Whatever the collaborators answer, a deploy applies at most once. An apply is the
last call of the run; the eight stages before it have completed; its flags are those of the context that they left; and
there was no text before, or the same one by its digest, or the deploy was approved beforehand, or the operator was
asked once and said yes. The operator is not asked if the deploy was approved beforehand or the digests agree. -/
theorem apply_is_approved {r : Except Empty (Deploy × Except StageFault Unit)} (h : d.run.Play es r) :
    (calls es).countP Call.isApply ≤ 1 ∧
    (∀ dir flags auto, Call.apply dir flags auto ∈ calls es →
      (∃ before after d', es = before ++ after ∧ calls after = [.apply dir flags auto] ∧
        (Pipeline.run (stages Stage.all.dropLast) d).Play before (.ok (d', .ok ())) ∧
        dir = d.infraDir ∧ d'.varFlags = .ok flags ∧ auto = d.autoApprove) ∧
      Consented d.autoApprove es) ∧
    (d.autoApprove = true → confirmations es = []) ∧
    (∀ p w, some p ∈ readings es → w ∈ writings es → Digest.ofText p = Digest.ofText w → confirmations es = []) := by
  obtain ⟨out, rfl⟩ := Action.exists_result h
  refine ⟨?_, ?_, ?_, ?_⟩
  · rcases play_run_apply h with hnone | ⟨d', before, after, flags, rfl, hprepared, _, hcalls, _⟩
    · rw [List.countP_eq_zero.2 fun c hc => by simp [hnone c hc]]
      exact Nat.zero_le 1
    · have hbefore : (calls before).countP Call.isApply = 0 := List.countP_eq_zero.2 fun c hc => by
        simp [not_isApply_of_mem_calls (hprepared.asked (stages_asksOnly _ _)) (by decide) hc]
      rw [calls_append, List.countP_append, hbefore, hcalls]
      rfl
  · intro dir flags auto hc
    refine ⟨?_, consented_of_apply h hc rfl⟩
    rcases play_run_apply h with hnone | ⟨d', before, after, flags', rfl, hprepared, hflags, hcalls, _⟩
    · exact absurd (hnone _ hc) (by simp [Call.isApply])
    · rw [calls_append, List.mem_append] at hc
      rcases hc with hc | hc
      · have := not_isApply_of_mem_calls (hprepared.asked (stages_asksOnly _ _)) (by decide) hc
        simp [Call.isApply] at this
      · rw [hcalls, List.mem_singleton] at hc
        cases hc
        exact ⟨before, after, d', rfl, hcalls, hprepared, rfl, hflags, rfl⟩
  · intro happroved
    refine List.eq_nil_iff_forall_not_mem.2 fun decision hd => ?_
    obtain ⟨_, _, _, _, ⟨hauto, _⟩, _⟩ := needsConsent_of_asked h hd
    rw [happroved] at hauto
    cases hauto
  · intro p w hp hw hdigest
    refine List.eq_nil_iff_forall_not_mem.2 fun decision hd => ?_
    obtain ⟨previous, generated, hreadings, hwritings, ⟨_, p', rfl, hne⟩, _⟩ := needsConsent_of_asked h hd
    rw [hreadings, List.mem_singleton, Option.some.injEq] at hp
    rw [hwritings, List.mem_singleton] at hw
    rw [hp, hw] at hdigest
    exact hne hdigest

/-- a deploy of an application without services -/
def shop : Deploy where
  project := {
    dir := "."
    application := { name := "shop", site := ⟨[], "shop.example", "1", "eu", "cert"⟩ }
    services := .empty }
  account := ⟨"default", "eu", "1", "shop"⟩
  infraDir := "infra"
  autoApprove := false

/-- its exchanges when there was no text before and nothing fails -/
def shopExchanges : List Asked := shop.run.transcript (Rehearsal.answer {}) {}

theorem shop_applies_once :
    (∃ dir flags auto, Call.apply dir flags auto ∈ calls shopExchanges) ∧
    (calls shopExchanges).countP Call.isApply ≤ 1 ∧ Consented false shopExchanges := by
  obtain ⟨honce, happly, _⟩ :=
    apply_is_approved (play_run (Rehearsal.answer {}) shop.run {})
  have hsome : (calls shopExchanges).any Call.isApply = true := by decide +kernel
  obtain ⟨c, hc, hap⟩ := List.any_eq_true.1 hsome
  cases c with
  | apply dir flags auto => exact ⟨⟨dir, flags, auto, hc⟩, honce, (happly dir flags auto hc).2⟩
  | _ => cases hap

end Deploy

end Fleet
