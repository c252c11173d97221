/-
Secrecy: the values of secrets decide nothing but what the last call is given.

Two runs of one deploy are compared. Their surroundings give the same answers, except that the secrets they answer may
have other values under the same names (`AnsweredAlike`). What can be seen without the values is the `veiled` exchange.
- `Twin`: two actions that ask questions which look alike, and go on alike whenever the answers look alike.
- `Twin.veiled_eq`: the plays of such actions look alike all through, and end alike.
- `twin_step`: a stage is the twin of itself, from two contexts that differ in values of secrets only.
- `secrets_stay_secret`: so is a deploy. What it says, calls, writes and publishes, and how it ends, is the same.
-/
import Fleet.Proofs.Deploy.Completion
import Fleet.Proofs.Deploy.Trail
import Fleet.Proofs.SortedMap

namespace Fleet

open Dialogue

/-! ## What is seen without the values -/

/-- names without values -/
def Secrets.veiled (s : Secrets) : Secrets := s.map fun _ _ => ""

theorem Secrets.veiled_eq_iff {s s' : Secrets} : s.veiled = s'.veiled ↔ s.keys = s'.keys := by
  constructor
  · intro h
    have hkeys (m : Secrets) : m.veiled.keys = m.keys := by simp [Secrets.veiled, SortedMap.keys, SortedMap.map]
    rw [← hkeys s, h, hkeys s']
  · intro h
    have hentries (m : Secrets) : m.veiled.entries = m.keys.map fun k => (k, "") := by
      simp [Secrets.veiled, SortedMap.keys, SortedMap.map]
    have hveiled : s.veiled.entries = s'.veiled.entries := by rw [hentries, hentries, h]
    exact SortedMap.ext_get? fun k => by rw [SortedMap.get?, hveiled, SortedMap.get?]

/-- a call without the flags that carry secrets -/
def Call.veiled : Call → Call
  | .apply dir _ autoApprove => .apply dir [] autoApprove
  | c => c

def Ask.veiled : Ask → Ask
  | .call c => .call c.veiled
  | q => q

/-- an exchange without values of secrets -/
def Asked.veiled : Asked → Asked
  | ⟨.call (.apply dir _ autoApprove), r⟩ => ⟨.call (.apply dir [] autoApprove), r⟩
  | ⟨.call (.readSecrets account), r⟩ => ⟨.call (.readSecrets account), r.map Secrets.veiled⟩
  | e => e

theorem Asked.call?_veiled (e : Asked) : e.veiled.call? = e.call?.map Call.veiled := by
  obtain ⟨q, x⟩ := e
  cases q with
  | call c => cases c <;> rfl
  | _ => rfl

theorem Asked.said?_veiled (e : Asked) : e.veiled.said? = e.said? := by
  obtain ⟨q, x⟩ := e
  cases q with
  | call c => cases c <;> rfl
  | _ => rfl

theorem Asked.writing?_veiled (e : Asked) : e.veiled.writing? = e.writing? := by
  obtain ⟨q, x⟩ := e
  cases q with
  | call c => cases c <;> rfl
  | _ => rfl

theorem output_veiled (es : List Asked) : output (es.map Asked.veiled) = output es := by
  rw [output, List.filterMap_map]
  exact List.filterMap_congr fun e _ => e.said?_veiled

theorem calls_veiled (es : List Asked) : calls (es.map Asked.veiled) = (calls es).map Call.veiled := by
  rw [calls, List.filterMap_map, calls, List.map_filterMap]
  exact List.filterMap_congr fun e _ => e.call?_veiled

theorem writings_veiled (es : List Asked) : writings (es.map Asked.veiled) = writings es := by
  rw [writings, List.filterMap_map]
  exact List.filterMap_congr fun e _ => e.writing?_veiled

/-- nothing in it is secret -/
def Ask.IsPlain (q : Ask) : Prop := ∀ x, Asked.veiled ⟨q, x⟩ = ⟨q, x⟩

theorem Ask.isPlain_of_isOf {l : List Stage} {q : Ask} (h : q.IsOf l) (hsecrets : .retrieveSecrets ∉ l)
    (happly : .apply ∉ l) : q.IsPlain := by
  cases q with
  | call c =>
    obtain ⟨s, hs, hc⟩ := h
    cases c with
    | readSecrets account => cases hc; exact absurd hs hsecrets
    | apply dir flags autoApprove => cases hc; exact absurd hs happly
    | _ => exact fun _ => rfl
  | _ => exact fun _ => rfl

/-- as long as the questions look alike, the answers do -/
def AnsweredAlike : List Asked → List Asked → Prop
  | e :: es, e' :: es' => e.1.veiled = e'.1.veiled → e.veiled = e'.veiled ∧ AnsweredAlike es es'
  | _, _ => True

/-! ## Faults that do not depend on values -/

/-- results in a relation, or the same fault -/
inductive Paired {ε α β : Type} (R : α → β → Prop) : Except ε α → Except ε β → Prop
  | ok {a : α} {b : β} (h : R a b) : Paired R (.ok a) (.ok b)
  | error (e : ε) : Paired R (.error e) (.error e)

/-- both succeed, or both fail with the same fault -/
abbrev FailAlike {ε α β : Type} : Except ε α → Except ε β → Prop := Paired fun _ _ => True

theorem FailAlike.map {ε α β γ δ : Type} {x : Except ε α} {x' : Except ε β} (h : FailAlike x x') (f : α → γ)
    (f' : β → δ) : FailAlike (x.map f) (x'.map f') := by
  cases h with
  | ok h => exact .ok trivial
  | error e => exact .error e

theorem FailAlike.mapM {ε α β γ : Type} {f : α → Except ε β} {f' : α → Except ε γ} (h : ∀ a, FailAlike (f a) (f' a))
    (l : List α) : FailAlike (l.mapM f) (l.mapM f') := by
  induction l with
  | nil => exact .ok trivial
  | cons a l ih =>
    rw [List.mapM_cons, List.mapM_cons]
    have ha := h a
    generalize f a = x, f' a = x' at ha
    cases ha with
    | ok _ => exact ih.map _ _
    | error e => exact .error e

section Stores

variable {secrets secrets' : Secrets} (hveiled : secrets.veiled = secrets'.veiled)
include hveiled

/-- the same names are in both stores -/
theorem get?_of_veiled_eq (k : String) :
    (secrets.get? k = none ∧ secrets'.get? k = none) ∨ ∃ v v', secrets.get? k = some v ∧ secrets'.get? k = some v' := by
  have hk : secrets.veiled.get? k = secrets'.veiled.get? k := by rw [hveiled]
  simp only [Secrets.veiled, SortedMap.get?_map] at hk
  cases h : secrets.get? k <;> cases h' : secrets'.get? k <;> simp [h, h'] at hk ⊢

theorem deployedVariables_failAlike (p : Project) (d : Dependency) :
    FailAlike (d.deployedVariables p secrets) (d.deployedVariables p secrets') := by
  unfold Dependency.deployedVariables
  split
  · exact .ok trivial
  · rename_i name secret _
    rcases get?_of_veiled_eq hveiled secret with ⟨h, h'⟩ | ⟨v, v', h, h'⟩
    · rw [h, h']
      exact .error _
    · rw [h, h']
      exact .ok trivial

theorem overlayDependencies_failAlike (p : Project) (vars vars' : Variables) (l : List Dependency) :
    FailAlike (Environment.overlayDependencies p secrets vars l)
      (Environment.overlayDependencies p secrets' vars' l) := by
  induction l generalizing vars vars' with
  | nil => exact .ok trivial
  | cons d l ih =>
    simp only [Environment.overlayDependencies]
    have hd := deployedVariables_failAlike hveiled p d
    generalize d.deployedVariables p secrets = x, d.deployedVariables p secrets' = x' at hd
    cases hd with
    | ok _ => exact ih _ _
    | error f => exact .error f

theorem overlaySecrets_failAlike (vars vars' : Variables) (keys : List String) :
    FailAlike (Environment.overlaySecrets secrets vars keys) (Environment.overlaySecrets secrets' vars' keys) := by
  induction keys generalizing vars vars' with
  | nil => exact .ok trivial
  | cons k keys ih =>
    simp only [Environment.overlaySecrets]
    rcases get?_of_veiled_eq hveiled k with ⟨h, h'⟩ | ⟨v, v', h, h'⟩
    · rw [h, h']
      exact .error _
    · rw [h, h']
      exact ih _ _

theorem inCloud_failAlike (p : Project) (role : String) (e : Endpoints) :
    FailAlike (Environment.inCloud p role e secrets) (Environment.inCloud p role e secrets') := by
  simp only [Environment.inCloud]
  cases p.service role with
  | error f => exact .error f
  | ok s =>
    have hdependencies := overlayDependencies_failAlike hveiled p (.singleton Environment.roleVariable role)
      (.singleton Environment.roleVariable role) (p.dependenciesOf role .inCloud)
    generalize Environment.overlayDependencies p secrets _ _ = x, Environment.overlayDependencies p secrets' _ _ = x'
      at hdependencies
    cases hdependencies with
    | error f => exact .error f
    | @ok vars vars' _ =>
      have hsecrets := overlaySecrets_failAlike hveiled (vars.merge s.inCloud.environment)
        (vars'.merge s.inCloud.environment) s.inCloud.secrets
      simp only
      generalize Environment.overlaySecrets secrets _ _ = x, Environment.overlaySecrets secrets' _ _ = x' at hsecrets
      cases hsecrets with
      | ok _ => exact .ok trivial
      | error f => exact .error f

theorem serviceEnvironments_failAlike (p : Project) (roles : List String) :
    FailAlike (Deploy.serviceEnvironments p secrets roles) (Deploy.serviceEnvironments p secrets' roles) :=
  FailAlike.mapM (fun role => (inCloud_failAlike hveiled p role _).map _ _) roles

end Stores

/-- questions that look alike are the same, or they differ in flags -/
theorem Ask.veiled_eq_cases {q q' : Ask} (h : q.veiled = q'.veiled) :
    q = q' ∨ ∃ dir flags flags' autoApprove,
      q = .call (.apply dir flags autoApprove) ∧ q' = .call (.apply dir flags' autoApprove) := by
  have hself (q : Ask) : q.veiled = q ∨ ∃ dir flags autoApprove, q = .call (.apply dir flags autoApprove) := by
    cases q with
    | call c =>
      cases c with
      | apply dir flags autoApprove => exact .inr ⟨dir, flags, autoApprove, rfl⟩
      | _ => exact .inl rfl
    | _ => exact .inl rfl
  rcases hself q with hq | ⟨dir, flags, autoApprove, rfl⟩ <;> rcases hself q' with hq' | ⟨dir', flags', auto', rfl⟩
  · exact .inl (hq.symm.trans (h.trans hq'))
  · exact .inr ⟨dir', [], flags', auto', hq.symm.trans h, rfl⟩
  · exact .inr ⟨dir, flags, [], autoApprove, rfl, hq'.symm.trans h.symm⟩
  · cases h
    exact .inr ⟨dir, flags, flags', autoApprove, rfl, rfl⟩

/-- surroundings with a state that answer alike, whatever they are asked -/
theorem answeredAlike_transcript {σ ε α β : Type} {answer answer' : (q : Ask) → σ → q.Answer × σ}
    (h : ∀ q q' w, q.veiled = q'.veiled →
      Asked.veiled ⟨q, (answer q w).1⟩ = Asked.veiled ⟨q', (answer' q' w).1⟩ ∧ (answer q w).2 = (answer' q' w).2)
    (p : Action ε α) (p' : Action ε β) (w : σ) : AnsweredAlike (p.transcript answer w) (p'.transcript answer' w) := by
  induction p generalizing p' w with
  | done a => trivial
  | fail e => trivial
  | ask q next ih =>
    cases p' with
    | done b => trivial
    | fail e => trivial
    | ask q' next' =>
      intro hq
      obtain ⟨hanswer, hstate⟩ := h q q' w hq
      refine ⟨hanswer, ?_⟩
      rw [hstate]
      exact ih _ _ _

/-! ## Twins -/

/-- actions that ask alike, go on alike when they are answered alike, and end with results in a relation -/
inductive Twin {ε α β : Type} (R : α → β → Prop) : Action ε α → Action ε β → Prop
  | done {a : α} {b : β} (h : R a b) : Twin R (.done a) (.done b)
  | fail (e : ε) : Twin R (.fail e) (.fail e)
  | ask {q q' : Ask} {next : q.Answer → Action ε α} {next' : q'.Answer → Action ε β} (hq : q.veiled = q'.veiled)
      (h : ∀ x x', Asked.veiled ⟨q, x⟩ = Asked.veiled ⟨q', x'⟩ → Twin R (next x) (next' x')) :
      Twin R (.ask q next) (.ask q' next')

namespace Twin

variable {ε α β γ δ : Type} {R : α → β → Prop} {S : γ → δ → Prop}

/-- **Twins that are answered alike look alike.** -/
theorem veiled_eq {p : Action ε α} {p' : Action ε β} {es es' : List Asked} {r : Except ε α} {r' : Except ε β}
    (h : Twin R p p') (hp : p.Play es r) (hp' : p'.Play es' r') (halike : AnsweredAlike es es') :
    es.map Asked.veiled = es'.map Asked.veiled ∧ Paired R r r' := by
  induction h generalizing es es' with
  | done h =>
    cases hp
    cases hp'
    exact ⟨rfl, .ok h⟩
  | fail e =>
    cases hp
    cases hp'
    exact ⟨rfl, .error e⟩
  | ask hq _ ih =>
    obtain ⟨x, rest, rfl, hrest⟩ := play_ask_iff.1 hp
    obtain ⟨x', rest', rfl, hrest'⟩ := play_ask_iff.1 hp'
    obtain ⟨hsame, hon⟩ := halike hq
    obtain ⟨hlook, hends⟩ := ih x x' hsame hrest hrest' hon
    exact ⟨by rw [List.map_cons, List.map_cons, hsame, hlook], hends⟩

theorem bind {p : Action ε α} {p' : Action ε β} {f : α → Action ε γ} {f' : β → Action ε δ} (h : Twin R p p')
    (hf : ∀ a b, R a b → Twin S (f a) (f' b)) : Twin S (p.bind f) (p'.bind f') := by
  induction h with
  | done h => exact hf _ _ h
  | fail e => exact .fail e
  | ask hq _ ih => exact .ask hq ih

theorem attempt {ε' : Type} {p : Action ε α} {p' : Action ε β} (h : Twin R p p') :
    Twin (Paired R) (p.attempt : Action ε' (Except ε α)) p'.attempt := by
  induction h with
  | done h => exact .done (.ok h)
  | fail e => exact .done (.error e)
  | ask hq _ ih => exact .ask hq ih

theorem of_paired {x : Except ε α} {x' : Except ε β} (h : Paired R x x') :
    Twin R (Dialogue.ofExcept x) (Dialogue.ofExcept x') := by
  cases h with
  | ok h => exact .done h
  | error e => exact .fail e

/-- an action that asks nothing secret is its own twin -/
theorem of_isPlain {p : Action ε α} (h : p.AsksOnly Ask.IsPlain) : Twin Eq p p := by
  induction p with
  | done a => exact .done rfl
  | fail e => exact .fail e
  | ask q next ih =>
    refine .ask rfl fun x x' hsame => ?_
    rw [h.1 x, h.1 x'] at hsame
    cases hsame
    exact ih x (h.2 x)

/-- what follows an action that asks nothing secret -/
theorem bind_of_isPlain {p : Action ε α} {f : α → Action ε γ} {f' : α → Action ε δ} (h : p.AsksOnly Ask.IsPlain)
    (hf : ∀ a, Twin S (f a) (f' a)) : Twin S (p.bind f) (p.bind f') :=
  (of_isPlain h).bind fun a _ hab => hab ▸ hf a

end Twin

/-! ## Stages -/

namespace Deploy

variable {d d' : Deploy} {es es' : List Asked} {t t' : Deploy} {x x' : Except StageFault Unit}

/-- contexts that differ in values of secrets only -/
structure Alike (d d' : Deploy) : Prop where
  rest : d' = { d with secrets := d'.secrets }
  secrets : d.secrets.map Secrets.veiled = d'.secrets.map Secrets.veiled

theorem Alike.refl (d : Deploy) : Alike d d := ⟨rfl, rfl⟩

theorem secretsOr_paired (h : Alike d d') :
    Paired (fun s s' : Secrets => s.veiled = s'.veiled) d.secretsOr d'.secretsOr := by
  have hsecrets := h.secrets
  unfold secretsOr
  cases hs : d.secrets <;> cases hs' : d'.secrets <;> simp [hs, hs'] at hsecrets ⊢
  · exact .error _
  · exact .ok hsecrets

/-- the flags are compiled, or not, whatever the values are -/
theorem varFlags_failAlike (h : Alike d d') : FailAlike d.varFlags d'.varFlags := by
  have hsecrets := secretsOr_paired h
  have himages : d'.imagesOr = d.imagesOr := by rw [h.rest]; rfl
  have hproject : d'.project = d.project := by rw [h.rest]
  refine FailAlike.map ?_ _ _
  unfold assignments
  rw [himages, hproject]
  generalize d.secretsOr = x, d'.secretsOr = x' at hsecrets
  cases hsecrets with
  | error f => exact .error f
  | ok hveiled =>
    cases d.imagesOr with
    | error f => exact .error f
    | ok images => exact (serviceEnvironments_failAlike hveiled d.project _).map _ _

theorem plain_of_isOf {ε α : Type} {p : Action ε α} {l : List Stage} (h : p.AsksOnly (Ask.IsOf l))
    (hsecrets : .retrieveSecrets ∉ l) (happly : .apply ∉ l) : p.AsksOnly Ask.IsPlain :=
  h.mono fun _ hq => Ask.isPlain_of_isOf hq hsecrets happly

theorem settleDrift_twin {secrets : Option Secrets}
    (hsecrets : d.secrets.map Secrets.veiled = secrets.map Secrets.veiled) (drift : Drift) :
    Twin Alike (d.settleDrift drift) (settleDrift { d with secrets } drift) := by
  cases drift with
  | noPrior => exact .bind_of_isPlain ⟨fun _ => rfl, fun _ => trivial⟩ fun _ => .done ⟨rfl, hsecrets⟩
  | unchanged digest => exact .bind_of_isPlain ⟨fun _ => rfl, fun _ => trivial⟩ fun _ => .done ⟨rfl, hsecrets⟩
  | changed diff additions deletions =>
    refine .bind_of_isPlain ⟨fun _ => rfl, fun _ => trivial⟩ fun _ => ?_
    dsimp only
    split
    · exact .done ⟨rfl, hsecrets⟩
    · refine .bind_of_isPlain (asksOnly_call fun _ => rfl) fun accepted => ?_
      cases accepted with
      | true => exact .done ⟨rfl, hsecrets⟩
      | false => exact .fail _

/-- reading secrets: the stores have the same names -/
theorem readSecrets_twin (account : Account) :
    Twin (fun s s' : Secrets => s.veiled = s'.veiled) (Action.call (.readSecrets account))
      (Action.call (.readSecrets account)) := by
  refine .ask rfl fun x x' hsame => .of_paired ?_
  have hveiled : x.map Secrets.veiled = x'.map Secrets.veiled := by simpa [Asked.veiled] using hsame
  cases x with
  | error f =>
    cases x' <;> cases hveiled
    exact .error f
  | ok s =>
    cases x' with
    | error f => cases hveiled
    | ok s' => exact .ok (Except.ok.inj hveiled)

/-- applying: the flags differ, and the outcome is the same -/
theorem apply_twin (dir : String) (flags flags' : List String) (autoApprove : Bool) :
    Twin (fun _ _ => True) (Action.call (.apply dir flags autoApprove))
      (Action.call (.apply dir flags' autoApprove)) := by
  refine .ask rfl fun x x' hsame => .of_paired ?_
  cases hsame
  cases x with
  | ok _ => exact .ok trivial
  | error f => exact .error f

/-- **A stage is its own twin**, from contexts that differ in values of secrets only. -/
theorem twin_step (s : Stage) (h : Alike d d') : Twin Alike (step s d) (step s d') := by
  have hflags := varFlags_failAlike h
  obtain ⟨hrest, hsecrets⟩ := h
  generalize d'.secrets = secrets at hrest hsecrets
  subst hrest
  cases s with
  | validate => exact .bind_of_isPlain (asksOnly_ofExcept _) fun _ => .done ⟨rfl, hsecrets⟩
  | pushImages =>
    refine .bind_of_isPlain (asksOnly_call fun _ => rfl) fun registry => ?_
    refine .bind_of_isPlain (asksOnly_ofExcept _) fun jobs => ?_
    refine .bind_of_isPlain (plain_of_isOf (publish_asksOnly _ _ _) (by decide) (by decide)) fun images => ?_
    refine .bind_of_isPlain (plain_of_isOf (announce_asksOnly _) (by decide) (by decide)) fun _ => ?_
    exact .done ⟨rfl, hsecrets⟩
  | generateFiles =>
    refine .bind_of_isPlain (asksOnly_ofExcept _) fun images => ?_
    refine .bind_of_isPlain (asksOnly_ofExcept _) fun i => ?_
    exact .bind_of_isPlain (asksOnly_call fun _ => rfl) fun text => .done ⟨rfl, hsecrets⟩
  | diffCheck =>
    simp only [step, diffCheck]
    split
    · exact .fail _
    · exact settleDrift_twin hsecrets _
  | retrieveSecrets =>
    refine .bind (readSecrets_twin _) fun kept kept' hveiled => .done ⟨rfl, ?_⟩
    simp [hveiled]
  | apply =>
    exact .bind (.of_paired hflags) fun flags flags' _ => .bind (apply_twin _ _ _ _) fun _ _ _ => .done ⟨rfl, hsecrets⟩
  | _ => exact .bind_of_isPlain (asksOnly_call fun _ => rfl) fun _ => .done ⟨rfl, hsecrets⟩

/-- stages one after the other are their own twins -/
theorem twin_stages (l : List Stage) (h : Alike d d') :
    Twin (fun out out' => Alike out.1 out'.1 ∧ out.2 = out'.2) (Pipeline.run (stages l) d)
    (Pipeline.run (stages l) d') := by
  induction l generalizing d d' with
  | nil => exact .done ⟨h, rfl⟩
  | cons s l ih =>
    refine .bind_of_isPlain ⟨fun _ => rfl, fun _ => trivial⟩ fun c => ?_
    cases c with
    | true => exact .done ⟨h, rfl⟩
    | false =>
      refine .bind_of_isPlain ⟨fun _ => rfl, fun _ => trivial⟩ fun _ => ?_
      have hbody : Twin (fun out out' => Alike out.1 out'.1 ∧ out.2 = out'.2) (Pipeline.Body.ofStep (step s) d)
          (Pipeline.Body.ofStep (step s) d') := by
        refine (twin_step s h).attempt.bind fun _ _ hpaired => ?_
        cases hpaired with
        | ok hend => exact .done ⟨hend, rfl⟩
        | error f => exact .done ⟨h, rfl⟩
      refine hbody.bind ?_
      rintro ⟨u, ran⟩ ⟨u', ran'⟩ ⟨hu, rfl⟩
      cases ran with
      | ok _ => exact ih hu
      | error f => exact .done ⟨hu, rfl⟩

/-- **The values of secrets decide nothing but what the last call is given.** Of two runs of a deploy that are answered
alike, but for the values of secrets, each exchange looks like the other's. So the output is the same, the same calls
are made with the same arguments, up to the flags of the last one, the same text is written, the same images are
published, and the run ends in the same way, with the same fault if it fails. -/
theorem secrets_stay_secret (h : d.run.Play es (.ok (t, x))) (h' : d.run.Play es' (.ok (t', x')))
    (halike : AnsweredAlike es es') :
    es.map Asked.veiled = es'.map Asked.veiled ∧ output es = output es' ∧
    (calls es).map Call.veiled = (calls es').map Call.veiled ∧ writings es = writings es' ∧ Alike t t' ∧ x = x' := by
  obtain ⟨hlook, hends⟩ := (twin_stages Stage.all (.refl d)).veiled_eq h h' halike
  cases hends with
  | ok hend =>
    refine ⟨hlook, ?_, ?_, ?_, hend⟩
    · rw [← output_veiled, hlook, output_veiled]
    · rw [← calls_veiled, hlook, calls_veiled]
    · rw [← writings_veiled, hlook, writings_veiled]

/-! ## A shop with a password -/

theorem agreeable_alike {secrets secrets' : Secrets} (hveiled : secrets.veiled = secrets'.veiled)
    (q q' : Ask) (w : Unit) (h : q.veiled = q'.veiled) :
    Asked.veiled ⟨q, (agreeable secrets q w).1⟩ = Asked.veiled ⟨q', (agreeable secrets' q' w).1⟩ ∧
      (agreeable secrets q w).2 = (agreeable secrets' q' w).2 := by
  refine ⟨?_, rfl⟩
  obtain rfl | ⟨dir, flags, flags', autoApprove, rfl, rfl⟩ := Ask.veiled_eq_cases h
  · cases q with
    | call c =>
      cases c with
      | readSecrets account => simp [Asked.veiled, agreeable, Rehearsal.Script.respond, Except.map, hveiled]
      | _ => rfl
    | _ => rfl
  · rfl

/-- the shop's secrets, with this password of its database -/
def withPassword (password : String) : Secrets := .ofList [("db-password", password), ("session-key", "sesame")]

/-- the infrastructure is given the one or the other password, and nothing else shows which it is -/
theorem stockedShop_keeps_its_password :
    let told (password : String) := stockedShop.run.transcript (agreeable (withPassword password)) ()
    calls (told "swordfish") ≠ calls (told "tuna") ∧ output (told "swordfish") = output (told "tuna") ∧
    (calls (told "swordfish")).map Call.veiled = (calls (told "tuna")).map Call.veiled := by
  intro told
  have hplay (password : String) := play_run (agreeable (withPassword password)) stockedShop.run ()
  have hveiled : (withPassword "swordfish").veiled = (withPassword "tuna").veiled :=
    Secrets.veiled_eq_iff.2 (by decide)
  have halike := answeredAlike_transcript (agreeable_alike hveiled) stockedShop.run stockedShop.run ()
  obtain ⟨⟨t, x⟩, hresult⟩ := Action.exists_result (hplay "swordfish")
  obtain ⟨⟨t', x'⟩, hresult'⟩ := Action.exists_result (hplay "tuna")
  obtain ⟨-, houtput, hcalls, -⟩ := secrets_stay_secret (hresult ▸ hplay "swordfish") (hresult' ▸ hplay "tuna") halike
  refine ⟨fun hsame => ?_, houtput, hcalls⟩
  exact absurd (congrArg (List.map Call.line) hsame) (by decide +kernel)

end Deploy

end Fleet
