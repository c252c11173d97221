/-
Provisioning an account, as often as one likes.

`Course` provisions, again and again, whether the calls before succeeded or not. Each call takes steps at the account
(`Steps`), any of which may fail.
- `provides_ensure`: something that is ensured is created only where it is missing, and is there in the end.
- `Provides.bind`: so are two things that are ensured one after the other.
- `provisioning_is_repeatable`: whatever fails, nothing that exists is created or removed, and what exists is only
  looked up.
-/
import Fleet.Proofs.Tooling.Holdings

namespace Fleet

open Dialogue Machine

namespace Aws

variable {a : Aws} {account : Account} {args look : List String} {s : Step} {steps steps₁ steps₂ : List Step}
  {before between after : Set Resource} {r : Resource} {rs rs₁ rs₂ : List Resource} {result : Except Fault Unit}

/-! ## What is safe -/

/-- nothing is created that exists, nothing is removed, and what is promised is there unless some call failed -/
structure Safe (rs : List Resource) (steps : List Step) (after : Set Resource) (result : Except Fault Unit) : Prop where
  creates : ∀ s ∈ steps, ∀ r, s.purpose = .create r → r ∉ s.before
  keeps : ∀ s ∈ steps, s.before ⊆ s.after
  provides : result = .ok () → ∀ r ∈ rs, r ∈ after
  completes : (∀ s ∈ steps, s.Served) → result = .ok ()

/-- the program is safe wherever the account holds something like `P` -/
def SafeFrom (P : Set Resource → Prop) (p : Program Fault Unit) (rs : List Resource) : Prop :=
  ∀ before steps after result, P before → Steps before steps after → p.Play (steps.map Step.exchange) result →
    Safe rs steps after result

/-- one part after the other -/
theorem SafeFrom.bind {P P' : Set Resource → Prop} {p : Program Fault Unit} {next : Unit → Program Fault Unit}
    (hp : SafeFrom P p rs₁) (hnext : SafeFrom P' (next ()) rs₂)
    (hbetween : ∀ before steps after, P before → Steps before steps after → p.Play (steps.map Step.exchange) (.ok ()) →
      P' after) : SafeFrom P (p.bind next) (rs₁ ++ rs₂) := by
  intro before steps after result hbefore hsteps hplay
  rcases play_bind_iff.1 hplay with ⟨f, rfl, hfailed⟩ | ⟨_, es₁, es₂, hes, hfirst, hrest⟩
  · obtain ⟨hcreates, hkeeps, -, hcompletes⟩ := hp _ _ _ _ hbefore hsteps hfailed
    exact ⟨hcreates, hkeeps, fun h => (nomatch h), fun hserved => (nomatch hcompletes hserved)⟩
  · obtain ⟨steps₁, steps₂, rfl, rfl, rfl⟩ := List.map_eq_append_iff.1 hes
    obtain ⟨between, h₁, h₂⟩ := steps_append_iff.1 hsteps
    have hsafe₁ := hp _ _ _ _ hbefore h₁ hfirst
    have hsafe₂ := hnext _ _ _ _ (hbetween _ _ _ hbefore h₁ hfirst) h₂ hrest
    refine ⟨?_, ?_, ?_, ?_⟩
    · exact List.forall_mem_append.2 ⟨hsafe₁.creates, hsafe₂.creates⟩
    · exact List.forall_mem_append.2 ⟨hsafe₁.keeps, hsafe₂.keeps⟩
    · intro hok
      refine List.forall_mem_append.2 ⟨fun r hr => ?_, hsafe₂.provides hok⟩
      exact h₂.subset hsafe₂.keeps (hsafe₁.provides rfl r hr)
    · intro hserved
      exact hsafe₂.completes fun s hs => hserved s (List.mem_append_right _ hs)

/-- what is missing may be created -/
theorem safeFrom_create (hcreate : purpose (a.command account args).args = .create r) :
    SafeFrom (r ∉ ·) (a.silent account args) [r] := by
  intro before steps after result hmissing hsteps hplay
  obtain ⟨s, rfl, hcommand, rfl⟩ := play_silent_step_iff.1 hplay
  obtain ⟨rfl, hpossible, rfl⟩ := hsteps
  rw [← hcommand] at hcreate
  have hkeeps : s.before ⊆ s.after := by
    rcases hpossible.created hcreate with ⟨_, -, hafter⟩ | ⟨_, -, hafter⟩
    · exact hafter ▸ Set.subset_insert r s.before
    · exact hafter.ge
  refine ⟨List.forall_mem_singleton.2 fun r' hr' => ?_, List.forall_mem_singleton.2 hkeeps, fun hok => ?_,
    fun hserved => ?_⟩
  · cases hcreate.symm.trans hr'
    exact hmissing
  · rcases hpossible.created hcreate with ⟨_, -, hafter⟩ | ⟨_, hfailed, -⟩
    · exact List.forall_mem_singleton.2 (hafter ▸ Set.mem_insert r s.before)
    · rw [hfailed] at hok
      cases hok
  · have hlook (r' : Resource) : s.purpose ≠ .lookUp r' := fun h => nomatch hcreate.symm.trans h
    obtain ⟨_, hok⟩ := (hserved s List.mem_cons_self).ok_of_ne_lookUp hlook
    rw [hok]
    rfl

/-- waiting is always safe -/
theorem safeFrom_await (hawait : purpose (a.command account args).args = .await r) :
    SafeFrom (fun _ => True) (a.silent account args) [] := by
  intro before steps after result _ hsteps hplay
  obtain ⟨s, rfl, hcommand, rfl⟩ := play_silent_step_iff.1 hplay
  obtain ⟨rfl, hpossible, rfl⟩ := hsteps
  rw [← hcommand] at hawait
  refine ⟨List.forall_mem_singleton.2 fun r' hr' => ?_, List.forall_mem_singleton.2 (hpossible.awaited hawait).ge,
    fun _ _ hr => (nomatch hr), fun hserved => ?_⟩
  · cases hawait.symm.trans hr'
  · have hlook (r' : Resource) : s.purpose ≠ .lookUp r' := fun h => nomatch hawait.symm.trans h
    obtain ⟨_, hok⟩ := (hserved s List.mem_cons_self).ok_of_ne_lookUp hlook
    rw [hok]
    rfl

/-! ## What is provided -/

/-- the program is safe, and only looks up what is there already -/
structure Provides (p : Program Fault Unit) (rs : List Resource) : Prop where
  safe : SafeFrom (fun _ => True) p rs
  idle : ∀ {before steps after result}, (∀ r ∈ rs, r ∈ before) → Steps before steps after →
    p.Play (steps.map Step.exchange) result → ∀ s ∈ steps, ∃ r ∈ rs, s.purpose = .lookUp r

/-- to ensure something is to look it up, and to go on only if it is missing -/
theorem ensure_cases {create : Program Fault Unit} (hlook : purpose (a.command account look).args = .lookUp r)
    (hsteps : Steps before steps after) (hplay : (a.ensure account look create).Play (steps.map Step.exchange) result) :
    ∃ s later, steps = s :: later ∧ s.purpose = .lookUp r ∧ s.before = before ∧ s.after = before ∧
      (r ∈ before ∧ later = [] ∧ after = before ∧ result = .ok () ∨
        r ∉ before ∧ Steps before later after ∧ create.Play (later.map Step.exchange) result ∨
        ∃ f, later = [] ∧ result = .error f ∧ ¬ s.Served) := by
  rcases play_bind_iff.1 hplay with ⟨f, rfl, hfailed⟩ | ⟨answer, es₁, es₂, hes, hfirst, hrest⟩
  · obtain ⟨s, rfl, hcommand, hfound⟩ := play_lookUp_step_iff.1 hfailed
    obtain ⟨rfl, hpossible, rfl⟩ := hsteps
    rw [← hcommand] at hlook
    obtain ⟨hkept, ⟨_, hthere, -⟩ | ⟨hnone, -⟩ | ⟨f', -, hunserved⟩⟩ := hpossible.looked hlook
    · cases hfound.trans hthere
    · cases hfound.trans hnone
    · exact ⟨s, [], rfl, hlook, rfl, hkept, .inr (.inr ⟨f, rfl, rfl, hunserved⟩)⟩
  · obtain ⟨first, later, rfl, rfl, rfl⟩ := List.map_eq_append_iff.1 hes
    obtain ⟨s, rfl, hcommand, hfound⟩ := play_lookUp_step_iff.1 hfirst
    obtain ⟨rfl, hpossible, hlater⟩ := hsteps
    rw [← hcommand] at hlook
    obtain ⟨hkept, ⟨_, hthere, hr⟩ | ⟨hnone, hr⟩ | ⟨_, hfailed, -⟩⟩ := hpossible.looked hlook
    · cases hfound.trans hthere
      obtain ⟨hnil, rfl⟩ := play_done_iff.1 hrest
      obtain rfl := List.map_eq_nil_iff.1 hnil
      exact ⟨s, [], rfl, hlook, rfl, hkept, .inl ⟨hr, rfl, hlater.symm.trans hkept, rfl⟩⟩
    · cases hfound.trans hnone
      exact ⟨s, later, rfl, hlook, rfl, hkept, .inr (.inl ⟨hr, hkept ▸ hlater, hrest⟩)⟩
    · cases hfound.trans hfailed

/-- **What is ensured** is created if it is missing, and left alone if it is there. -/
theorem provides_ensure {create : Program Fault Unit} (hlook : purpose (a.command account look).args = .lookUp r)
    (hcreate : SafeFrom (r ∉ ·) create [r]) : Provides (a.ensure account look create) [r] := by
  constructor
  · intro before steps after result _ hsteps hplay
    obtain ⟨s, later, rfl, hpurpose, rfl, hkept, hcase⟩ := ensure_cases hlook hsteps hplay
    have hlookOnly (r' : Resource) (h : s.purpose = .create r') : r' ∉ s.before := nomatch hpurpose.symm.trans h
    rcases hcase with ⟨hr, rfl, rfl, rfl⟩ | ⟨hr, hlater, hrest⟩ | ⟨f, rfl, rfl, hunserved⟩
    · exact ⟨List.forall_mem_singleton.2 hlookOnly, List.forall_mem_singleton.2 hkept.ge,
        fun _ => List.forall_mem_singleton.2 hr, fun _ => rfl⟩
    · obtain ⟨hcreates, hkeeps, hprovides, hcompletes⟩ := hcreate _ _ _ _ hr hlater hrest
      exact ⟨List.forall_mem_cons.2 ⟨hlookOnly, hcreates⟩, List.forall_mem_cons.2 ⟨hkept.ge, hkeeps⟩, hprovides,
        fun hserved => hcompletes fun s hs => hserved s (List.mem_cons_of_mem _ hs)⟩
    · exact ⟨List.forall_mem_singleton.2 hlookOnly, List.forall_mem_singleton.2 hkept.ge, fun h => (nomatch h),
        fun hserved => absurd (hserved s List.mem_cons_self) hunserved⟩
  · intro before steps after result hthere hsteps hplay
    obtain ⟨s, later, rfl, hpurpose, rfl, -, hcase⟩ := ensure_cases hlook hsteps hplay
    have hr := hthere r List.mem_cons_self
    obtain rfl : later = [] := by
      rcases hcase with ⟨-, hnil, -⟩ | ⟨hmissing, -⟩ | ⟨_, hnil, -⟩
      · exact hnil
      · exact absurd hr hmissing
      · exact hnil
    exact List.forall_mem_singleton.2 ⟨r, List.mem_cons_self, hpurpose⟩

/-- two things that are provided one after the other -/
theorem Provides.bind {p : Program Fault Unit} {next : Unit → Program Fault Unit} (hp : Provides p rs₁)
    (hnext : Provides (next ()) rs₂) : Provides (p.bind next) (rs₁ ++ rs₂) := by
  refine ⟨hp.safe.bind hnext.safe fun _ _ _ _ _ _ => trivial, ?_⟩
  intro before steps after result hthere hsteps hplay
  obtain ⟨hthere₁, hthere₂⟩ := List.forall_mem_append.1 hthere
  rcases play_bind_iff.1 hplay with ⟨f, rfl, hfailed⟩ | ⟨_, es₁, es₂, hes, hfirst, hrest⟩
  · intro s hs
    obtain ⟨r, hr, hlook⟩ := hp.idle hthere₁ hsteps hfailed s hs
    exact ⟨r, List.mem_append_left _ hr, hlook⟩
  · obtain ⟨steps₁, steps₂, rfl, rfl, rfl⟩ := List.map_eq_append_iff.1 hes
    obtain ⟨between, h₁, h₂⟩ := steps_append_iff.1 hsteps
    have hgrown : before ⊆ between := h₁.subset (hp.safe _ _ _ _ trivial h₁ hfirst).keeps
    refine List.forall_mem_append.2 ⟨fun s hs => ?_, fun s hs => ?_⟩
    · obtain ⟨r, hr, hlook⟩ := hp.idle hthere₁ h₁ hfirst s hs
      exact ⟨r, List.mem_append_left _ hr, hlook⟩
    · obtain ⟨r, hr, hlook⟩ := hnext.idle (fun r hr => hgrown (hthere₂ r hr)) h₂ hrest s hs
      exact ⟨r, List.mem_append_right _ hr, hlook⟩

theorem provides_ensureStateBucket (a : Aws) (account : Account) :
    Provides (a.ensureStateBucket account) [.bucket account.stateBucket] :=
  provides_ensure rfl (safeFrom_create rfl)

/-- the lock table is waited for once it is created -/
theorem provides_ensureLockTable (a : Aws) (account : Account) :
    Provides (a.ensureLockTable account) [.table Account.lockTable] :=
  provides_ensure rfl ((safeFrom_create rfl).bind (safeFrom_await rfl) fun _ _ _ _ _ _ => trivial)

theorem provides_ensureAccount (a : Aws) (account : Account) :
    Provides (a.ensureAccount account) [.bucket account.stateBucket, .table Account.lockTable] :=
  (provides_ensureStateBucket a account).bind (provides_ensureLockTable a account)

theorem provides_ensureRepository (a : Aws) (account : Account) (name : String) :
    Provides (a.ensureRepository account name) [.repository name] :=
  provides_ensure rfl (safeFrom_create rfl)

/-! ## Provisioning again and again -/

/-- what an account is asked to provide; the calls may be made for several applications -/
inductive Provision where
  | account (of : Account)
  | repository (of : Account) (name : String)

namespace Provision

def program (a : Aws) : Provision → Program Fault Unit
  | .account of => a.ensureAccount of
  | .repository of name => a.ensureRepository of name

/-- what has to be there when the call returns -/
def resources : Provision → List Resource
  | .account of => [.bucket of.stateBucket, .table Account.lockTable]
  | .repository _ name => [.repository name]

theorem provides_program (a : Aws) (p : Provision) : Provides (p.program a) p.resources := by
  cases p with
  | account of => exact provides_ensureAccount a of
  | repository of name => exact provides_ensureRepository a of name

end Provision

/-- one call, with the steps that it takes -/
structure Turn where
  call : Provision
  before : Set Resource
  steps : List Step
  result : Except Fault Unit
  after : Set Resource

def Turn.Possible (a : Aws) (t : Turn) : Prop :=
  Steps t.before t.steps t.after ∧ (t.call.program a).Play (t.steps.map Step.exchange) t.result

/-- calls one after the other, whether they succeed or fail -/
def Course (a : Aws) (before : Set Resource) : List Turn → Set Resource → Prop
  | [], after => before = after
  | t :: turns, after => t.before = before ∧ t.Possible a ∧ Course a t.after turns after

variable {t : Turn} {turns : List Turn}

theorem Course.possible (h : Course a before turns after) : ∀ t ∈ turns, t.Possible a := by
  induction turns generalizing before with
  | nil => exact fun t ht => nomatch ht
  | cons t turns ih =>
    obtain ⟨-, hfirst, hrest⟩ := h
    exact List.forall_mem_cons.2 ⟨hfirst, ih hrest⟩

theorem Turn.Possible.safe (h : t.Possible a) : Safe t.call.resources t.steps t.after t.result :=
  (t.call.provides_program a).safe _ _ _ _ trivial h.1 h.2

/-! ## What is held at all times -/

/-- what the account holds, around every step -/
def momentsOf (steps : List Step) : List (Set Resource) := steps.flatMap fun s => [s.before, s.after]

def moments (turns : List Turn) : List (Set Resource) := turns.flatMap fun t => momentsOf t.steps

/-- nothing is lost on the way from `before` over `l` to `after` -/
structure Rising (before : Set Resource) (l : List (Set Resource)) (after : Set Resource) : Prop where
  above : ∀ m ∈ l, before ⊆ m
  below : ∀ m ∈ l, m ⊆ after
  pairwise : l.Pairwise (· ⊆ ·)
  subset : before ⊆ after

variable {l₁ l₂ : List (Set Resource)}

theorem Rising.append (h₁ : Rising before l₁ between) (h₂ : Rising between l₂ after) :
    Rising before (l₁ ++ l₂) after where
  above := List.forall_mem_append.2 ⟨h₁.above, fun m hm => h₁.subset.trans (h₂.above m hm)⟩
  below := List.forall_mem_append.2 ⟨fun m hm => (h₁.below m hm).trans h₂.subset, h₂.below⟩
  pairwise := List.pairwise_append.2 ⟨h₁.pairwise, h₂.pairwise, fun m hm n hn => (h₁.below m hm).trans (h₂.above n hn)⟩
  subset := h₁.subset.trans h₂.subset

theorem rising_nil (held : Set Resource) : Rising held [] held := ⟨by simp, by simp, .nil, le_rfl⟩

theorem rising_pair (h : before ⊆ after) : Rising before [before, after] after :=
  ⟨by simp [h], by simp [h], by simp [h], h⟩

theorem Steps.rising (h : Steps before steps after) (hkeeps : ∀ s ∈ steps, s.before ⊆ s.after) :
    Rising before (momentsOf steps) after := by
  induction steps generalizing before with
  | nil =>
    obtain rfl := h
    exact rising_nil before
  | cons s steps ih =>
    obtain ⟨rfl, -, hrest⟩ := h
    obtain ⟨hfirst, hkeeps⟩ := List.forall_mem_cons.1 hkeeps
    exact (rising_pair hfirst).append (ih hrest hkeeps)

theorem Course.rising (h : Course a before turns after) : Rising before (moments turns) after := by
  induction turns generalizing before with
  | nil =>
    obtain rfl := h
    exact rising_nil before
  | cons t turns ih =>
    obtain ⟨rfl, hfirst, hrest⟩ := h
    exact (hfirst.1.rising hfirst.safe.keeps).append (ih hrest)

/-- **Provisioning may be repeated.** Whatever an account holds at first, whatever is asked for, however often, and
whichever calls fail on the way: nothing is created that exists, and nothing that was held at one time is missing later.
What a call provides is there when the call returns, and a call fails only if the account refused something. If
everything is there already, all that is done is to look it up. -/
theorem provisioning_is_repeatable (a : Aws) {before after : Set Resource} {turns : List Turn}
    (h : Course a before turns after) :
    (∀ t ∈ turns, ∀ s ∈ t.steps, ∀ r, s.purpose = .create r → r ∉ s.before) ∧
    (before :: (moments turns ++ [after])).Pairwise (· ⊆ ·) ∧
    (∀ t ∈ turns, t.result = .ok () → ∀ r ∈ t.call.resources, r ∈ t.after) ∧
    (∀ t ∈ turns, (∀ s ∈ t.steps, s.Served) → t.result = .ok ()) ∧
    ∀ t ∈ turns, (∀ r ∈ t.call.resources, r ∈ t.before) →
      ∀ s ∈ t.steps, ∃ r ∈ t.call.resources, s.purpose = .lookUp r := by
  have hsafe (t : Turn) (ht : t ∈ turns) := (h.possible t ht).safe
  have hrising := h.rising
  refine ⟨fun t ht => (hsafe t ht).creates, ?_, fun t ht => (hsafe t ht).provides,
    fun t ht => (hsafe t ht).completes, ?_⟩
  · have hlast : (moments turns ++ [after]).Pairwise (· ⊆ ·) := List.pairwise_append.2
      ⟨hrising.pairwise, List.pairwise_singleton _ _, fun m hm => List.forall_mem_singleton.2 (hrising.below m hm)⟩
    refine List.pairwise_cons.2 ⟨List.forall_mem_append.2 ⟨hrising.above, ?_⟩, hlast⟩
    exact List.forall_mem_singleton.2 hrising.subset
  · intro t ht hthere
    exact (t.call.provides_program a).idle hthere (h.possible t ht).1 (h.possible t ht).2

/-! ## A shop that is provisioned twice -/

/-- a process that succeeds and says nothing -/
def silence : Finished := ⟨0, .empty, .empty⟩

/-- the shop asks its account for this, and gets that answer -/
def shopStep (before : Set Resource) (args : List String) (answer : Finished) (after : Set Resource) : Step :=
  ⟨before, shopAws.command (shopAccount "12345") args, .ok answer, after⟩

def shopBucket : Resource := .bucket "12345-shop-terraform"

def shopTable : Resource := .table "TerraformLocks"

/-- bucket and table are created, but the table is not waited for long enough -/
def firstSteps : List Step := [
  shopStep ∅ ["s3api", "head-bucket", "--bucket", "12345-shop-terraform"] (complaining "Not Found") ∅,
  shopStep ∅ ["s3api", "create-bucket", "--bucket", "12345-shop-terraform",
    "--create-bucket-configuration", "LocationConstraint=eu"] silence {shopBucket},
  shopStep {shopBucket} ["dynamodb", "describe-table", "--table-name", "TerraformLocks"]
    (complaining "ResourceNotFoundException") {shopBucket},
  shopStep {shopBucket} ["dynamodb", "create-table", "--table-name", "TerraformLocks",
    "--attribute-definitions", "AttributeName=LockID,AttributeType=S", "--key-schema",
    "AttributeName=LockID,KeyType=HASH", "--provisioned-throughput", "ReadCapacityUnits=1,WriteCapacityUnits=1"] silence
      {shopTable, shopBucket},
  shopStep {shopTable, shopBucket} ["dynamodb", "wait", "table-exists", "--table-name", "TerraformLocks"]
    (complaining "Max attempts exceeded") {shopTable, shopBucket}]

/-- both are found -/
def secondSteps : List Step := [
  shopStep {shopTable, shopBucket} ["s3api", "head-bucket", "--bucket", "12345-shop-terraform"] silence
    {shopTable, shopBucket},
  shopStep {shopTable, shopBucket} ["dynamodb", "describe-table", "--table-name", "TerraformLocks"] silence
    {shopTable, shopBucket}]

def shopTurns : List Turn := [
  ⟨.account (shopAccount "12345"), ∅, firstSteps, .error (.tool .aws "Max attempts exceeded"), {shopTable, shopBucket}⟩,
  ⟨.account (shopAccount "12345"), {shopTable, shopBucket}, secondSteps, .ok (), {shopTable, shopBucket}⟩]

theorem ending_complaining {complaint : String} (c : Command)
    (htext : Text.trim (Text.ofOctetsLossy complaint.toUTF8) = complaint) :
    ending c (.ok (complaining complaint)) = .error (.tool c.tool complaint) := by
  have hcode : ¬ (complaining complaint).code = 0 := (by decide : ¬ (254 : Int) = 0)
  rw [ending, Program.outputOf, if_neg hcode]
  exact congrArg (fun text => Except.error (Fault.tool c.tool text)) htext

theorem missing_shopStep {complaint : String} (htext : Text.trim (Text.ofOctetsLossy complaint.toUTF8) = complaint)
    (habsent : saysAbsent complaint = true)
    (hlook : purpose (args ++ ["--profile", "default", "--region", "eu"]) = .lookUp r) (hmissing : r ∉ before) :
    (shopStep before args (complaining complaint) before).Possible :=
  .inl (.missing hlook hmissing (ending_complaining _ htext) habsent rfl)

theorem play_ensure_found {create : Program Fault Unit} {output : String}
    (hcommand : s.command = a.command account look) (hfound : found s.ending = .ok (some output)) :
    (a.ensure account look create).Play ([s].map Step.exchange) (.ok ()) := by
  refine play_bind_iff.2 (.inr ⟨some output, [s].map Step.exchange, [], rfl, ?_, .done ()⟩)
  exact play_lookUp_step_iff.2 ⟨s, rfl, hcommand, hfound.symm⟩

theorem play_ensure_missing {create : Program Fault Unit} (hcommand : s.command = a.command account look)
    (hmissing : found s.ending = .ok none) (hrest : create.Play (steps.map Step.exchange) result) :
    (a.ensure account look create).Play ((s :: steps).map Step.exchange) result := by
  refine play_bind_iff.2 (.inr ⟨none, [s].map Step.exchange, steps.map Step.exchange, rfl, ?_, hrest⟩)
  exact play_lookUp_step_iff.2 ⟨s, rfl, hcommand, hmissing.symm⟩

/-- something that is looked up in vain -/
theorem found_complaining {complaint : String} (htext : Text.trim (Text.ofOctetsLossy complaint.toUTF8) = complaint)
    (habsent : saysAbsent complaint = true) :
    found (shopStep before args (complaining complaint) after).ending = .ok none := by
  simp [Step.ending, shopStep, ending_complaining _ htext, found, habsent]

theorem play_firstSteps : (shopAws.ensureAccount (shopAccount "12345")).Play (firstSteps.map Step.exchange)
    (.error (.tool .aws "Max attempts exceeded")) := by
  have hwaited : (shopStep {shopTable, shopBucket}
      ["dynamodb", "wait", "table-exists", "--table-name", "TerraformLocks"]
      (complaining "Max attempts exceeded") {shopTable, shopBucket}).ending =
        .error (.tool .aws "Max attempts exceeded") :=
    ending_complaining _ (by decide +kernel)
  refine play_bind_iff.2 (.inr ⟨(), (firstSteps.take 2).map Step.exchange, (firstSteps.drop 2).map Step.exchange,
    rfl, ?_, ?_⟩)
  · exact play_ensure_missing rfl (found_complaining (by decide +kernel) (by decide +kernel))
      (play_silent_step_iff.2 ⟨_, rfl, rfl, rfl⟩)
  · refine play_ensure_missing rfl (found_complaining (by decide +kernel) (by decide +kernel)) ?_
    refine play_bind_iff.2 (.inr ⟨(), ((firstSteps.drop 3).take 1).map Step.exchange,
      (firstSteps.drop 4).map Step.exchange, rfl, play_silent_step_iff.2 ⟨_, rfl, rfl, rfl⟩,
      play_silent_step_iff.2 ⟨_, rfl, rfl, ?_⟩⟩)
    exact (congrArg (fun ending => ending.bind fun _ => .ok ()) hwaited).symm

theorem course_shopTurns : Course shopAws ∅ shopTurns {shopTable, shopBucket} := by
  refine ⟨rfl, ⟨⟨rfl, ?_, rfl, ?_, rfl, ?_, rfl, ?_, rfl, ?_, rfl⟩, play_firstSteps⟩, rfl,
    ⟨⟨rfl, ?_, rfl, ?_, rfl⟩, ?_⟩, rfl⟩
  · exact missing_shopStep (by decide +kernel) (by decide +kernel) rfl (Set.notMem_empty shopBucket)
  · exact .inl (.created rfl rfl (by simp [shopStep, shopBucket]))
  · have hmissing : shopTable ∉ ({shopBucket} : Set Resource) := by simp [shopTable, shopBucket]
    exact missing_shopStep (by decide +kernel) (by decide +kernel) rfl hmissing
  · exact .inl (.created rfl rfl rfl)
  · have hpresent : saysAbsent "Max attempts exceeded" = false := by decide +kernel
    exact .inr (.inl (.call (fun h => nomatch h) (ending_complaining _ (by decide +kernel)) hpresent rfl))
  · exact .inl (.found rfl (Set.mem_insert_of_mem _ rfl) rfl rfl)
  · exact .inl (.found rfl (Set.mem_insert _ _) rfl rfl)
  · refine play_bind_iff.2 (.inr ⟨(), (secondSteps.take 1).map Step.exchange,
      (secondSteps.drop 1).map Step.exchange, rfl, play_ensure_found rfl rfl, play_ensure_found rfl rfl⟩)

/-- the second call finds what the first one left, and asks for nothing else -/
theorem shop_is_provisioned_in_two_goes :
    Course shopAws ∅ shopTurns {shopTable, shopBucket} ∧
    shopTurns.map Turn.result = [.error (.tool .aws "Max attempts exceeded"), .ok ()] ∧
    ((∅ : Set Resource) :: (moments shopTurns ++ [{shopTable, shopBucket}])).Pairwise (· ⊆ ·) ∧
    ∀ s ∈ secondSteps, ∃ r ∈ [shopBucket, shopTable], s.purpose = .lookUp r := by
  obtain ⟨-, hrising, -, -, hidle⟩ := provisioning_is_repeatable shopAws course_shopTurns
  refine ⟨course_shopTurns, rfl, hrising, ?_⟩
  refine hidle _ (List.mem_cons_of_mem _ List.mem_cons_self)
    (List.forall_mem_cons.2 ⟨?_, List.forall_mem_singleton.2 ?_⟩)
  · exact Set.mem_insert_of_mem shopTable rfl
  · exact Set.mem_insert shopTable {shopBucket}

end Aws

end Fleet
