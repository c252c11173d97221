/-
What an account holds, and what a call of its program does to it.

The account is the set of its buckets, tables and repositories. A look-up says whether its resource is there, a creation
that succeeds adds its resource, and any call may fail instead (`Step.Possible`). What a call does that is no look-up,
no creation and no wait is unknown, so it may remove anything.
- `Step.Possible.looked`, `Step.Possible.created`, `Step.Possible.awaited`: what is known after a call of each kind.
- `Steps`: such calls one after the other.
- `play_lookUp_step_iff`, `play_silent_step_iff`: a program that makes one call takes one step.
-/
import Mathlib.Data.Set.Insert
import Fleet.Proofs.Tooling.Aws

namespace Fleet

open Dialogue Machine

namespace Aws

/-! ## What the account holds -/

inductive Resource where
  | bucket (name : String)
  | table (name : String)
  | repository (name : String)
  deriving DecidableEq

/-- what the account's program is asked for -/
inductive Purpose where
  | lookUp (r : Resource)
  | create (r : Resource)
  | await (r : Resource)
  | other

/-- the purpose of a call, by its arguments -/
def purpose : List String → Purpose
  | "s3api" :: "head-bucket" :: "--bucket" :: name :: _ => .lookUp (.bucket name)
  | "s3api" :: "create-bucket" :: "--bucket" :: name :: _ => .create (.bucket name)
  | "dynamodb" :: "describe-table" :: "--table-name" :: name :: _ => .lookUp (.table name)
  | "dynamodb" :: "create-table" :: "--table-name" :: name :: _ => .create (.table name)
  | "dynamodb" :: "wait" :: "table-exists" :: "--table-name" :: name :: _ => .await (.table name)
  | "ecr" :: "describe-repositories" :: "--repository-names" :: name :: _ => .lookUp (.repository name)
  | "ecr" :: "create-repository" :: "--repository-name" :: name :: _ => .create (.repository name)
  | _ => .other

/-- how a call ends, by what its process left behind -/
def ending (c : Command) : Except FileCause Finished → Except Fault String
  | .ok finished => Program.outputOf c.tool finished
  | .error e => .error (.tool c.tool s!"cannot start: {e.message}")

/-- a call of the account's program, with what the account holds before and after it -/
structure Step where
  before : Set Resource
  command : Command
  answer : Except FileCause Finished
  after : Set Resource

namespace Step

def purpose (s : Step) : Purpose := Aws.purpose s.command.args

def ending (s : Step) : Except Fault String := Aws.ending s.command s.answer

def exchange (s : Step) : Exchange Request Request.Answer := ⟨.execute s.command, s.answer⟩

/-- the account does what it is asked for; a look-up of what is missing ends with a complaint that says so -/
inductive Served : Step → Prop
  | found {s : Step} {r : Resource} {output : String} (asked : s.purpose = .lookUp r) (there : r ∈ s.before)
      (ends : s.ending = .ok output) (kept : s.after = s.before) : Served s
  | missing {s : Step} {r : Resource} {which : Tool} {complaint : String} (asked : s.purpose = .lookUp r)
      (missing : r ∉ s.before) (ends : s.ending = .error (.tool which complaint)) (absent : saysAbsent complaint = true)
      (kept : s.after = s.before) : Served s
  | created {s : Step} {r : Resource} {output : String} (asked : s.purpose = .create r) (ends : s.ending = .ok output)
      (added : s.after = insert r s.before) : Served s
  | awaited {s : Step} {r : Resource} {output : String} (asked : s.purpose = .await r) (ends : s.ending = .ok output)
      (kept : s.after = s.before) : Served s

/-- the call fails: a creation with any complaint, everything else with one that speaks of no absence -/
inductive Refused : Step → Prop
  | creation {s : Step} {r : Resource} {f : Fault} (asked : s.purpose = .create r) (ends : s.ending = .error f)
      (kept : s.after = s.before) : Refused s
  | call {s : Step} {which : Tool} {complaint : String} (asked : s.purpose ≠ .other)
      (ends : s.ending = .error (.tool which complaint)) (present : saysAbsent complaint = false)
      (kept : s.after = s.before) : Refused s

/-- what an account may do; nothing is known of calls that are made for other purposes -/
def Possible (s : Step) : Prop := s.Served ∨ s.Refused ∨ s.purpose = .other

end Step

/-- calls one after the other, and what the account holds at either end -/
def Steps (before : Set Resource) : List Step → Set Resource → Prop
  | [], after => before = after
  | s :: steps, after => s.before = before ∧ s.Possible ∧ Steps s.after steps after

variable {a : Aws} {account : Account} {args : List String} {es : List (Exchange Request Request.Answer)} {s : Step}
  {steps steps₁ steps₂ : List Step} {before after : Set Resource} {r : Resource} {result : Except Fault Unit}

theorem steps_append_iff :
    Steps before (steps₁ ++ steps₂) after ↔ ∃ between, Steps before steps₁ between ∧ Steps between steps₂ after := by
  induction steps₁ generalizing before with
  | nil => exact ⟨fun h => ⟨before, rfl, h⟩, fun ⟨_, hsame, h⟩ => hsame ▸ h⟩
  | cons s steps ih =>
    simp only [List.cons_append, Steps, ih]
    constructor
    · rintro ⟨hbefore, hfirst, between, h₁, h₂⟩
      exact ⟨between, ⟨hbefore, hfirst, h₁⟩, h₂⟩
    · rintro ⟨between, ⟨hbefore, hfirst, h₁⟩, h₂⟩
      exact ⟨hbefore, hfirst, between, h₁, h₂⟩

theorem Steps.subset (h : Steps before steps after) (hkeeps : ∀ s ∈ steps, s.before ⊆ s.after) : before ⊆ after := by
  induction steps generalizing before with
  | nil => exact h.le
  | cons s steps ih =>
    obtain ⟨rfl, -, hrest⟩ := h
    obtain ⟨hfirst, hkeeps⟩ := List.forall_mem_cons.1 hkeeps
    exact hfirst.trans (ih hrest hkeeps)

/-! ## Single calls -/

theorem Step.Served.ok_of_ne_lookUp (h : s.Served) (hp : ∀ r, s.purpose ≠ .lookUp r) :
    ∃ output, s.ending = .ok output := by
  cases h with
  | found asked _ _ _ => exact absurd asked (hp _)
  | missing asked _ _ _ _ => exact absurd asked (hp _)
  | created _ ends _ => exact ⟨_, ends⟩
  | awaited _ ends _ => exact ⟨_, ends⟩

/-- a look-up tells whether its resource is there, or fails -/
theorem Step.Possible.looked (h : s.Possible) (hp : s.purpose = .lookUp r) : s.after = s.before ∧
    ((∃ output, found s.ending = .ok (some output) ∧ r ∈ s.before) ∨ (found s.ending = .ok none ∧ r ∉ s.before) ∨
      ∃ f, found s.ending = .error f ∧ ¬ s.Served) := by
  have hfailed {which : Tool} {complaint : String} (ends : s.ending = .error (.tool which complaint))
      (present : saysAbsent complaint = false) : ∃ f, found s.ending = .error f ∧ ¬ s.Served := by
    refine ⟨.tool which complaint, by simp [ends, found, present], ?_⟩
    intro hserved
    cases hserved <;> simp_all
  rcases h with hserved | hrefused | hother
  · cases hserved with
    | found asked there ends kept =>
      cases hp.symm.trans asked
      exact ⟨kept, .inl ⟨_, by rw [ends]; rfl, there⟩⟩
    | missing asked missing ends absent kept =>
      cases hp.symm.trans asked
      exact ⟨kept, .inr (.inl ⟨by simp [ends, found, absent], missing⟩)⟩
    | created asked _ _ => cases hp.symm.trans asked
    | awaited asked _ _ => cases hp.symm.trans asked
  · cases hrefused with
    | creation asked _ _ => cases hp.symm.trans asked
    | call _ ends present kept => exact ⟨kept, .inr (.inr (hfailed ends present))⟩
  · cases hp.symm.trans hother

/-- a creation that succeeds adds its resource, and one that fails changes nothing -/
theorem Step.Possible.created (h : s.Possible) (hp : s.purpose = .create r) :
    (∃ output, s.ending = .ok output ∧ s.after = insert r s.before) ∨
      ∃ f, s.ending = .error f ∧ s.after = s.before := by
  rcases h with hserved | hrefused | hother
  · cases hserved with
    | found asked _ _ _ => cases hp.symm.trans asked
    | missing asked _ _ _ _ => cases hp.symm.trans asked
    | created asked ends added =>
      cases hp.symm.trans asked
      exact .inl ⟨_, ends, added⟩
    | awaited asked _ _ => cases hp.symm.trans asked
  · cases hrefused with
    | creation _ ends kept => exact .inr ⟨_, ends, kept⟩
    | call _ ends _ kept => exact .inr ⟨_, ends, kept⟩
  · cases hp.symm.trans hother

theorem Step.Possible.awaited (h : s.Possible) (hp : s.purpose = .await r) : s.after = s.before := by
  rcases h with hserved | hrefused | hother
  · cases hserved with
    | found _ _ _ kept => exact kept
    | missing _ _ _ _ kept => exact kept
    | created asked _ _ => cases hp.symm.trans asked
    | awaited _ _ kept => exact kept
  · cases hrefused with
    | creation _ _ kept => exact kept
    | call _ _ _ kept => exact kept
  · cases hp.symm.trans hother

/-! ## Calls in programs -/

theorem play_captured_iff {c : Command} {x : Except Fault String} :
    (Program.captured c).Play es x ↔ ∃ answer, es = [⟨.execute c, answer⟩] ∧ x = ending c answer := by
  have hsame : Program.captured c = .ask (.execute c) fun answer => .ofExcept (ending c answer) := by
    refine congrArg (Dialogue.ask (Request.execute c)) (funext fun answer => ?_)
    cases answer <;> rfl
  simp only [hsame, play_ask_iff, play_ofExcept_iff]
  constructor
  · rintro ⟨answer, _, rfl, rfl, rfl⟩
    exact ⟨answer, rfl, rfl⟩
  · rintro ⟨answer, rfl, rfl⟩
    exact ⟨answer, [], rfl, rfl, rfl⟩

/-- a program that makes one call takes one step -/
theorem play_captured_step_iff {c : Command} {x : Except Fault String} :
    (Program.captured c).Play (steps.map Step.exchange) x ↔ ∃ s, steps = [s] ∧ s.command = c ∧ x = s.ending := by
  rw [play_captured_iff]
  constructor
  · rintro ⟨answer, hsteps, rfl⟩
    obtain ⟨⟨before, command, answer', after⟩, rfl, hexchange⟩ := List.map_eq_singleton_iff.1 hsteps
    cases hexchange
    exact ⟨_, rfl, rfl, rfl⟩
  · rintro ⟨s, rfl, rfl, rfl⟩
    exact ⟨s.answer, rfl, rfl⟩

theorem play_lookUp_step_iff {x : Except Fault (Option String)} :
    (a.lookUp account args).Play (steps.map Step.exchange) x ↔
      ∃ s, steps = [s] ∧ s.command = a.command account args ∧ x = found s.ending := by
  simp only [play_lookUp_iff, play_captured_step_iff]
  constructor
  · rintro ⟨_, ⟨s, rfl, hcommand, rfl⟩, rfl⟩
    exact ⟨s, rfl, hcommand, rfl⟩
  · rintro ⟨s, rfl, hcommand, rfl⟩
    exact ⟨_, ⟨s, rfl, hcommand, rfl⟩, rfl⟩

theorem play_silent_step_iff : (a.silent account args).Play (steps.map Step.exchange) result ↔
    ∃ s, steps = [s] ∧ s.command = a.command account args ∧ result = s.ending.bind fun _ => .ok () := by
  have hsame : a.silent account args =
      (Program.captured (a.command account args)).bind fun output => .ofExcept ((fun _ => .ok ()) output) := rfl
  simp only [hsame, play_bind_ofExcept_iff, play_captured_step_iff]
  constructor
  · rintro ⟨_, ⟨s, rfl, hcommand, rfl⟩, rfl⟩
    exact ⟨s, rfl, hcommand, rfl⟩
  · rintro ⟨s, rfl, hcommand, rfl⟩
    exact ⟨_, ⟨s, rfl, hcommand, rfl⟩, rfl⟩

end Aws

end Fleet
