/-
Refusals: what becomes of a text that the operator declined.

A deploy writes its text before it asks about it, so a declined text stays in the file, and the next deploy takes it for
the previous one. If that deploy generates the same text again there is nothing to ask about, and it applies.
- `approval_after_refusal_iff`: a declined text that a later deploy applies was approved in between just if that deploy
  was approved beforehand, or one in between approved it, or another text was left in the file meanwhile.
- `refusal_is_forgotten`: a deploy declined, and the next one applies the same text without a question.
-/
import Fleet.Proofs.Deploy.History

namespace Fleet

open Dialogue Machine

namespace Attempt

/-- this text is generated and written -/
def Regenerates (a : Attempt) (text : String) : Prop := text ∈ writings a.exchanges

/-- the operator says no to this text -/
def Declines (a : Attempt) (text : String) : Prop := a.Regenerates text ∧ .ok false ∈ confirmations a.exchanges

/-- this text is applied -/
def Applies (a : Attempt) (text : String) : Prop := a.Regenerates text ∧ ∃ c ∈ calls a.exchanges, c.isApply = true

/-- the operator says yes to this text, or it is applied by a deploy that was approved beforehand -/
def Approves (a : Attempt) (text : String) : Prop :=
  a.Regenerates text ∧ (.ok true ∈ confirmations a.exchanges ∨
    a.deploy.autoApprove = true ∧ ∃ c ∈ calls a.exchanges, c.isApply = true)

end Attempt

variable {dir text : String} {m m' : Memory} {pre mid post : List Attempt} {declined last : Attempt}

/-- the text that some deploys leave behind, if one of them wrote one -/
def leftBy (as : List Attempt) : Option String := (writings (exchangesOf as)).getLast?

theorem exists_leftBy {as : List Attempt} {a : Attempt} (ha : a ∈ as) (hw : text ∈ writings a.exchanges) :
    ∃ left, leftBy as = some left := by
  obtain ⟨d, i, hmem⟩ := mem_writings.1 hw
  have hall : text ∈ writings (exchangesOf as) := mem_writings.2 ⟨d, i, List.mem_flatMap.2 ⟨a, ha, hmem⟩⟩
  cases hlast : leftBy as with
  | some left => exact ⟨left, rfl⟩
  | none =>
    rw [leftBy, List.getLast?_eq_none_iff] at hlast
    rw [hlast] at hall
    cases hall

/-- what deploys leave behind is held afterwards -/
theorem held_of_leftBy {as : List Attempt} {left : String} (h : History dir m as m') (hleft : leftBy as = some left) :
    Terraform.held dir m' = .ok (some left) := by
  rcases held_cases h.2 h.inDir with ⟨hnil, _⟩ | ⟨last, hlast, hheld⟩
  · rw [leftBy, hnil] at hleft
    cases hleft
  · rw [leftBy, hlast] at hleft
    cases hleft
    exact hheld

/-- a deploy that applies a text read what was held before it, and wrote just that text -/
theorem readings_of_applies {a : Attempt} {left : String} (h : History dir m [a] m')
    (hheld : Terraform.held dir m = .ok (some left)) (happly : a.Applies text) :
    readings a.exchanges = [some left] ∧ writings a.exchanges = [text] := by
  obtain ⟨rfl, hplay⟩ := h.1 a (List.mem_singleton_self a)
  obtain ⟨hregenerates, c, hc, hisApply⟩ := happly
  have hanswered := h.2
  rw [exchangesOf, List.flatMap_singleton] at hanswered
  rcases Deploy.play_run_cases hplay with ⟨hnil, _⟩ | ⟨d', es₁, es₂, generated, hes, hdrafted, _, _, _, hrest⟩
  · rw [Attempt.Regenerates, hnil] at hregenerates
    cases hregenerates
  · have hquiet := hrest.asked (Deploy.stages_asksOnly _ _)
    have hwritings : writings a.exchanges = [generated] := by
      rw [hes, writings_append, hdrafted.writings_eq, writings_eq_nil hquiet (by decide)]
      rfl
    rw [hes] at hanswered
    rw [Attempt.Regenerates, hwritings, List.mem_singleton] at hregenerates
    refine ⟨?_, hregenerates ▸ hwritings⟩
    rw [hes, readings_append, hdrafted.readings_eq, readings_eq_nil hquiet (by decide),
      Deploy.previous_of_held hdrafted hanswered hheld]
    rfl

/-! ## A shop that is deployed twice -/

/-- no text has the digest of every text -/
theorem exists_digest_ne (text : String) : ∃ p, Digest.ofText p ≠ Digest.ofText text := by
  by_cases h : Digest.ofText "" = Digest.ofText text
  · refine ⟨"a", ?_⟩
    rw [← h]
    decide +kernel
  · exact ⟨"", h⟩

namespace Deploy

variable {d : Deploy} {generated : String}

/-- the operator can say no to drift -/
theorem exists_play_declined (hg : d.generated = some generated)
    (hneeds : NeedsConsent d.autoApprove d.previous generated) :
    ∃ es f, (diffCheck d).Play es (.error f) ∧ confirmations es = [.ok false] := by
  obtain ⟨hauto, p, hp, hne⟩ := hneeds
  simp only [diffCheck, hg, hp, Drift.compare, if_neg hne, settleDrift, hauto, Bool.false_eq_true, if_false]
  have hno (f : Fault) (accepted : Deploy) : ((Action.call (.confirm driftPrompt)).bind fun yes =>
      if yes then .done accepted else .fail f).Play [⟨.call (.confirm driftPrompt), .ok false⟩] (.error f) :=
    play_bind_iff.2 (.inr ⟨false, [_], [], rfl, play_call_iff.2 rfl, .fail f⟩)
  exact ⟨_, _, play_say_bind_iff.2 ⟨_, rfl, hno _ d⟩, rfl⟩

/-- a text that was there before goes through without a question -/
theorem exists_play_unchanged (hg : d.generated = some generated) (hp : d.previous = some generated) :
    ∃ es, (diffCheck d).Play es (.ok d) ∧ confirmations es = [] := by
  simp only [diffCheck, hg, hp, Drift.compare, if_true, settleDrift]
  exact ⟨[⟨.say _, ()⟩], play_say_bind_iff.2 ⟨_, rfl, .done d⟩, rfl⟩

/-- the shop once its text is drafted -/
def shopDrafted (previous generated : String) : Deploy :=
  { shop with images := some .empty, previous := some previous, generated := some generated }

/-- what the shop exchanges while it drafts, if nothing fails -/
def shopDrafting (previous : String) (i : Infrastructure) : List Asked :=
  (Pipeline.run (stages [.validate, .provisionAccount, .pushImages]) shop).transcript (Rehearsal.answer {}) {} ++
    (Pipeline.opening .readPriorState ++ ⟨.call (.readDefinition "infra"), .ok (some previous)⟩ ::
      (Pipeline.opening .generateFiles ++ [⟨.call (.writeDefinition "infra" i), .ok i.render⟩]))

theorem play_shop_publishing :
    (Pipeline.run (stages [.validate, .provisionAccount, .pushImages]) shop).Play
      ((Pipeline.run (stages [.validate, .provisionAccount, .pushImages]) shop).transcript (Rehearsal.answer {}) {})
      (.ok ({ shop with images := some .empty }, .ok ())) :=
  play_run (Rehearsal.answer {}) _ {}

/-- the definition does not depend on what was there before -/
theorem exists_play_shop_drafting : ∃ i : Infrastructure, ∀ previous,
    (Pipeline.run (stages drafting) shop).Play (shopDrafting previous i)
      (.ok (shopDrafted previous i.render, .ok ())) :=
  ⟨_, fun previous => play_drafting_iff.2 ⟨{ shop with images := some .empty }, _, some previous, _, _,
    play_shop_publishing, rfl, rfl, rfl⟩⟩

/-- what the shop exchanges after the check of the differences, if nothing fails -/
def shopFinishing (previous generated : String) : List Asked :=
  (Pipeline.run (stages [.retrieveSecrets, .initialiseState, .apply]) (shopDrafted previous generated)).transcript
    (Rehearsal.answer {}) {}

theorem play_shop_finishing (previous generated : String) :
    (Pipeline.run (stages [.retrieveSecrets, .initialiseState, .apply]) (shopDrafted previous generated)).Play
      (shopFinishing previous generated)
      (.ok ({ shopDrafted previous generated with secrets := some .empty }, .ok ())) :=
  play_run (Rehearsal.answer {}) _ {}

/-- the shop declined: it stops at the check of the differences -/
theorem exists_play_shop_declined {previous generated : String}
    (hne : Digest.ofText previous ≠ Digest.ofText generated) :
    ∃ es out, (Pipeline.run (stages (checking ++ [.apply])) (shopDrafted previous generated)).Play es (.ok out) ∧
      confirmations es = [.ok false] := by
  have hneeds : NeedsConsent false (some previous) generated := ⟨rfl, previous, rfl, hne⟩
  obtain ⟨asked, f, hdeclined, hno⟩ := exists_play_declined (d := shopDrafted previous generated) rfl hneeds
  exact ⟨_, _, play_stages_cons_iff.2 (.inr (.inl ⟨f, asked, rfl, hdeclined, rfl⟩)), hno⟩

/-- the shop with the text that was there before: it goes on to the end, and nobody is asked -/
theorem exists_play_shop_unasked (text : String) :
    ∃ es out, (Pipeline.run (stages (checking ++ [.apply])) (shopDrafted text text)).Play es (.ok out) ∧
      confirmations es = [] ∧ (calls es).any Call.isApply = true := by
  obtain ⟨unasked, hunchanged, hnone⟩ := exists_play_unchanged (d := shopDrafted text text) rfl rfl
  have hfinishing := play_shop_finishing text text
  refine ⟨_, _, play_stages_cons_iff.2 (.inr (.inr ⟨_, _, _, rfl, hunchanged, hfinishing⟩)), ?_, ?_⟩
  · rw [confirmations_append, confirmations_opening, confirmations_append, hnone,
      confirmations_eq_nil (hfinishing.asked (stages_asksOnly _ _)) (by decide)]
    rfl
  · have happly : (calls (shopFinishing text text)).any Call.isApply = true := rfl
    rw [calls_append, calls_append, List.any_append, List.any_append, happly]
    simp only [Bool.or_true]

end Deploy

/-- a machine whose infrastructure directory holds a text -/
def machineHolding (text : String) : Memory :=
  { tree := ⟨[(["infra", "main.tf"], .file text.toUTF8), (["infra"], .directory)]⟩ }

theorem held_machineHolding (text : String) : Terraform.held "infra" (machineHolding text) = .ok (some text) :=
  Terraform.held_eq_some_iff.2 (Memory.readText_of_readOctets rfl)

theorem writeDefinition_machineHolding (text : String) (i : Infrastructure) :
    (machineHolding text).run (Terraform.writeDefinition "infra" i) = (.ok i.render, machineHolding i.render) := rfl

/-- drafting puts the new text in the place of the old one -/
theorem answeredAll_shopDrafting (previous : String) (i : Infrastructure) :
    AnsweredAll "infra" (machineHolding previous) (Deploy.shopDrafting previous i) (machineHolding i.render) := by
  have hread : Answered "infra" (machineHolding previous) ⟨.call (.readDefinition "infra"), .ok (some previous)⟩
      (machineHolding previous) := by
    have hanswer : Answered "infra" (machineHolding previous) _ _ := Answered.read (machineHolding previous)
    rwa [Terraform.readDefinition_run, held_machineHolding] at hanswer
  have hwrite : Answered "infra" (machineHolding previous) ⟨.call (.writeDefinition "infra" i), .ok i.render⟩
      (machineHolding i.render) := by
    have hanswer : Answered "infra" (machineHolding previous) _ _ := Answered.write (machineHolding previous) i
    rwa [writeDefinition_machineHolding] at hanswer
  have hopening (s : Stage) : AnsweredAll "infra" (machineHolding previous) (Pipeline.opening s)
      (machineHolding previous) := answeredAll_of_quiet (isOf_opening s []) (by decide) (by decide) _
  refine answeredAll_append_iff.2 ⟨_, answeredAll_of_quiet
    (Deploy.play_shop_publishing.asked (Deploy.stages_asksOnly _ _)) (by decide) (by decide) _, ?_⟩
  refine answeredAll_append_iff.2 ⟨_, hopening _, .cons hread ?_⟩
  exact answeredAll_append_iff.2 ⟨_, hopening _, .cons hwrite (.nil _)⟩

/-- the shop is deployed twice, and the operator declines the first time -/
theorem shop_history : ∃ m m' first second text, History "infra" m [first, second] m' ∧ first.Declines text ∧
    second.Applies text ∧ second.deploy.autoApprove = false ∧ confirmations second.exchanges = [] := by
  obtain ⟨i, hdrafting⟩ := Deploy.exists_play_shop_drafting
  obtain ⟨p, hne⟩ := exists_digest_ne i.render
  obtain ⟨es₁, out₁, hdeclined, hno⟩ := Deploy.exists_play_shop_declined hne
  obtain ⟨es₂, out₂, hunasked, hnone, happly⟩ := Deploy.exists_play_shop_unasked i.render
  have hquiet : ∀ q, confirmations (Deploy.shopDrafting q i) = [] := fun q =>
    confirmations_eq_nil ((hdrafting q).asked (Deploy.stages_asksOnly _ _)) (by decide)
  have hwritten : ∀ q es, i.render ∈ writings (Deploy.shopDrafting q i ++ es) := fun q es =>
    mem_writings.2 ⟨"infra", i, by simp [Deploy.shopDrafting]⟩
  have hanswered : ∀ q {d es out}, (Pipeline.run (Deploy.stages (Deploy.checking ++ [.apply])) d).Play es (.ok out) →
      AnsweredAll "infra" (machineHolding q) (Deploy.shopDrafting q i ++ es) (machineHolding i.render) :=
    fun q _ _ _ h => answeredAll_append_iff.2 ⟨_, answeredAll_shopDrafting q i,
      answeredAll_of_quiet (h.asked (Deploy.stages_asksOnly _ _)) (by decide) (by decide) _⟩
  let first : Attempt := ⟨Deploy.shop, Deploy.shopDrafting p i ++ es₁, out₁⟩
  let second : Attempt := ⟨Deploy.shop, Deploy.shopDrafting i.render i ++ es₂, out₂⟩
  refine ⟨machineHolding p, machineHolding i.render, first, second, i.render, ⟨?_, ?_⟩, ⟨hwritten _ _, ?_⟩,
    ⟨hwritten _ _, ?_⟩, rfl, ?_⟩
  · intro a ha
    rcases List.mem_pair.1 ha with rfl | rfl
    · exact ⟨rfl, Deploy.play_stages_append_iff.2 (.inr ⟨_, _, _, rfl, hdrafting p, hdeclined⟩)⟩
    · exact ⟨rfl, Deploy.play_stages_append_iff.2 (.inr ⟨_, _, _, rfl, hdrafting i.render, hunasked⟩)⟩
  · rw [exchangesOf_cons, exchangesOf, List.flatMap_singleton]
    exact answeredAll_append_iff.2 ⟨_, hanswered p hdeclined, hanswered i.render hunasked⟩
  · rw [confirmations_append, hquiet, hno]
    exact List.mem_singleton_self _
  · obtain ⟨c, hc, hisApply⟩ := List.any_eq_true.1 happly
    exact ⟨c, by rw [calls_append]; exact List.mem_append_right _ hc, hisApply⟩
  · rw [confirmations_append, hquiet, hnone]
    rfl

/-- **When a declined text is approved before it is applied after all.** A later deploy applies a text that was
declined. Since then the text was approved just if the applying deploy was approved beforehand, or a deploy in between
approved the text, or what was left in the file meanwhile has another digest. Otherwise nobody was asked. -/
theorem approval_after_refusal_iff (h : History dir m (pre ++ declined :: (mid ++ last :: post)) m')
    (hdeclined : declined.Declines text) (hlast : last.Applies text) :
    ∃ left, leftBy (declined :: mid) = some left ∧
      ((∃ a ∈ mid ++ [last], a.Approves text) ↔
        last.deploy.autoApprove = true ∨ (∃ a ∈ mid, a.Approves text) ∨
          Digest.ofText left ≠ Digest.ofText text) := by
  have hmem : declined ∈ declined :: mid := List.mem_cons_self
  obtain ⟨left, hleft⟩ := exists_leftBy hmem hdeclined.1
  refine ⟨left, hleft, ?_⟩
  obtain ⟨m₁, _, h⟩ := history_append_iff.1 h
  rw [show declined :: (mid ++ last :: post) = (declined :: mid) ++ ([last] ++ post) by simp] at h
  obtain ⟨m₂, hbefore, h⟩ := history_append_iff.1 h
  obtain ⟨m₃, hthis, _⟩ := history_append_iff.1 h
  obtain ⟨hreadings, hwritings⟩ := readings_of_applies hthis (held_of_leftBy hbefore hleft) hlast
  obtain ⟨_, hplay⟩ := hthis.1 last (List.mem_singleton_self last)
  constructor
  · rintro ⟨a, ha, happroves⟩
    rcases List.mem_append.1 ha with ha | ha
    · exact .inr (.inl ⟨a, ha, happroves⟩)
    · cases List.mem_singleton.1 ha
      rcases happroves.2 with hyes | ⟨hauto, _⟩
      · obtain ⟨previous, generated, hr, hw, ⟨_, p, rfl, hne⟩, _⟩ := Deploy.needsConsent_of_asked hplay hyes
        rw [hreadings] at hr
        rw [hwritings] at hw
        cases hr
        cases hw
        exact .inr (.inr hne)
      · exact .inl hauto
  · rintro (hauto | ⟨a, ha, happroves⟩ | hne)
    · exact ⟨last, by simp, hlast.1, .inr ⟨hauto, hlast.2⟩⟩
    · exact ⟨a, List.mem_append_left _ ha, happroves⟩
    · obtain ⟨c, hc, hisApply⟩ := hlast.2
      refine ⟨last, by simp, hlast.1, ?_⟩
      rcases Deploy.consented_of_apply hplay hc hisApply with hnone | ⟨p, w, hr, hw, hdigest⟩ | hauto | hyes
      · rw [hreadings] at hnone
        cases hnone
      · rw [hreadings] at hr
        rw [hwritings] at hw
        cases hr
        cases hw
        exact absurd hdigest hne
      · exact .inr ⟨hauto, hlast.2⟩
      · exact .inl (by rw [hyes]; exact List.mem_singleton_self _)

/-- the shop's second deploy was not approved: nothing else was left in the file -/
theorem shop_approval_after_refusal : ∃ m m' first second text left, History "infra" m [first, second] m' ∧
    first.Declines text ∧ second.Applies text ∧ leftBy [first] = some left ∧
    ((∃ a ∈ [second], a.Approves text) ↔ second.deploy.autoApprove = true ∨
      (∃ a ∈ ([] : List Attempt), a.Approves text) ∨ Digest.ofText left ≠ Digest.ofText text) := by
  obtain ⟨m, m', first, second, text, h, hdeclined, happlied, _, _⟩ := shop_history
  have hsplit : History "infra" m ([] ++ first :: ([] ++ second :: [])) m' := h
  obtain ⟨left, hleft, hiff⟩ := approval_after_refusal_iff hsplit hdeclined happlied
  exact ⟨m, m', first, second, text, left, h, hdeclined, happlied, hleft, hiff⟩

/-- **A refusal is forgotten.** It is not so that a declined text is applied only if it was approved since. -/
theorem refusal_is_forgotten : ¬ ∀ (dir : String) (m m' : Memory) (pre mid post : List Attempt)
    (declined last : Attempt) (text : String), History dir m (pre ++ declined :: (mid ++ last :: post)) m' →
    declined.Declines text → last.Applies text → ∃ a ∈ mid ++ [last], a.Approves text := by
  intro hall
  obtain ⟨m, m', first, second, text, h, hdeclined, happlied, hauto, hnone⟩ := shop_history
  obtain ⟨a, ha, _, hyes | ⟨happroved, _⟩⟩ := hall "infra" m m' [] [] [] first second text h hdeclined happlied
  · cases List.mem_singleton.1 ha
    rw [hnone] at hyes
    cases hyes
  · cases List.mem_singleton.1 ha
    rw [hauto] at happroved
    cases happroved

end Fleet
