/-
What starting and stopping local containers exchanges.

- `start_ok`, `start_error`: starting a component starts its container as the last call, or starts nothing and ends with
  what went wrong (`StartFailure`). It stops nothing (`start_asksOnly`).
- `teardown_takenDown`: taking a stack down stops each of its containers, latest first, removes it just if that worked
  (`Stopped`), goes on past every fault, and ends with the network. The first fault is what it reports.
-/
import Mathlib.Tactic
import Fleet.Local.Stack
import Fleet.Proofs.Action

namespace Fleet

open Dialogue

/-! ## What exchanges show -/

/-- a container that was started: its name, what it runs, and the network it joined -/
abbrev Launch := String × Container × Option String

def Asked.launch? : Asked → Option Launch
  | ⟨.call (.start name spec network), .ok _⟩ => some (name, spec, network)
  | _ => none

/-- the containers that were started, in order -/
def launches (es : List Asked) : List Launch := es.filterMap Asked.launch?

def Asked.fault? : Asked → Option Fault
  | ⟨.call _, .error f⟩ => some f
  | _ => none

/-- the faults that calls ended with, in order -/
def faults (es : List Asked) : List Fault := es.filterMap Asked.fault?

@[simp] theorem launches_append (es₁ es₂ : List Asked) : launches (es₁ ++ es₂) = launches es₁ ++ launches es₂ :=
  List.filterMap_append

@[simp] theorem faults_append (es₁ es₂ : List Asked) : faults (es₁ ++ es₂) = faults es₁ ++ faults es₂ :=
  List.filterMap_append

theorem mem_launches {es : List Asked} {name : String} {spec : Container} {network : Option String} :
    (name, spec, network) ∈ launches es ↔ ∃ id, (⟨.call (.start name spec network), .ok id⟩ : Asked) ∈ es := by
  simp only [launches, List.mem_filterMap]
  constructor
  · rintro ⟨e, he, hl⟩
    unfold Asked.launch? at hl
    split at hl
    · cases hl; exact ⟨_, he⟩
    · cases hl
  · rintro ⟨id, he⟩; exact ⟨_, he, rfl⟩

/-- what may be asked while components are started -/
def Ask.BringsUp : Ask → Prop
  | .call (.build _ _ _) | .call (.imageExists _) | .call (.pull _) | .call (.start _ _ _) | .cancelled | .note _ =>
    True
  | _ => False

/-- what may be asked while an image is prepared -/
def Ask.Prepares : Ask → Prop
  | .call (.build _ _ _) | .call (.imageExists _) | .call (.pull _) => True
  | _ => False

/-- what may be asked while leftovers are looked for and removed -/
def Ask.Sweeps : Ask → Prop
  | .call .listContainers | .call (.stop _) | .call (.remove _) => True
  | _ => False

/-- what may be asked while containers of these names are stopped -/
def Ask.Stops (names : List String) : Ask → Prop
  | .call (.stop name) | .call (.remove name) => name ∈ names
  | .note _ => True
  | _ => False

theorem Ask.Stops.mono {names names' : List String} (h : names ⊆ names') {q : Ask} (hq : q.Stops names) :
    q.Stops names' := by
  unfold Ask.Stops at hq ⊢
  split at hq
  · exact h hq
  · exact h hq
  · trivial
  · exact hq.elim

theorem launches_eq_nil {es : List Asked} {P : Ask → Prop} (h : ∀ e ∈ es, P e.1)
    (hP : ∀ name spec network, ¬ P (.call (.start name spec network))) : launches es = [] := by
  refine List.eq_nil_iff_forall_not_mem.2 fun ⟨name, spec, network⟩ hl => ?_
  obtain ⟨id, he⟩ := mem_launches.1 hl
  exact hP _ _ _ (h _ he)

namespace Stack

variable {α : Type} {p : Project} {c : Composition} {network name : String} {s s' : Stack} {spec : Container}
  {es : List Asked} {f : LocalFault}

theorem play_callLocal_iff {q : Call} {r : Except LocalFault q.Answer} :
    (callLocal q).Play es r ↔ ∃ a, es = [⟨.call q, a⟩] ∧ r = a.mapError .fault := by
  simp only [callLocal, play_mapFailure_iff, play_call_iff]
  constructor
  · rintro ⟨a, rfl, rfl⟩; exact ⟨a, rfl, rfl⟩
  · rintro ⟨a, rfl, rfl⟩; exact ⟨a, rfl, rfl⟩

theorem play_callLocal_bind_iff {q : Call} {g : q.Answer → Action LocalFault α} {r : Except LocalFault α} :
    ((callLocal q).bind g).Play es r ↔ ∃ a rest, es = ⟨.call q, a⟩ :: rest ∧
      ((∃ e, a = .error e ∧ rest = [] ∧ r = .error (.fault e)) ∨ ∃ x, a = .ok x ∧ (g x).Play rest r) := by
  simp only [play_bind_iff, play_callLocal_iff]
  constructor
  · rintro (⟨e, rfl, a, rfl, ha⟩ | ⟨x, es₁, es₂, rfl, ⟨a, rfl, ha⟩, hrest⟩)
    · cases a with
      | error e => cases ha; exact ⟨_, [], rfl, .inl ⟨e, rfl, rfl, rfl⟩⟩
      | ok x => cases ha
    · cases a with
      | error e => cases ha
      | ok x => cases ha; exact ⟨_, es₂, rfl, .inr ⟨x, rfl, hrest⟩⟩
  · rintro ⟨a, rest, rfl, ⟨e, rfl, rfl, rfl⟩ | ⟨x, rfl, hrest⟩⟩
    · exact .inl ⟨_, rfl, .error e, rfl, rfl⟩
    · exact .inr ⟨x, [_], rest, rfl, ⟨.ok x, rfl, rfl⟩, hrest⟩

theorem callLocal_asksOnly {P : Ask → Prop} {q : Call} (h : P (.call q)) : (callLocal q).AsksOnly P :=
  asksOnly_mapFailure (asksOnly_call h)

/-! ## Starting a component -/

/-- what a component runs: if it is built, the image that was built for it -/
def prepared (network name : String) (c : Container) : Container :=
  match c.build with
  | some _ => { c with image := some s!"{network}-{name}" }
  | none => c

theorem prepared_runName (network name : String) (c : Container) :
    (prepared network name c).runName name = c.runName name := by
  unfold prepared
  split <;> rfl

/-- how the start of a component ends when it fails, and after which exchange -/
inductive StartFailure (c : Composition) (name : String) : List Asked → LocalFault → Prop
  | interrupted : StartFailure c name [⟨.cancelled, true⟩] (.interruptedStart name)
  | unknown (h : c.services.get? name = none) : StartFailure c name [⟨.cancelled, false⟩] (.noComponent name)
  | call (own : List Asked) (q : Call) (f : Fault) (h : faults own = []) :
    StartFailure c name (own ++ [⟨.call q, .error f⟩]) (.fault f)

theorem prepareImage_asksOnly (s : Stack) (p : Project) (name : String) (spec : Container) :
    (s.prepareImage p name spec).AsksOnly Ask.Prepares := by
  unfold prepareImage
  split
  · exact asksOnly_bind (callLocal_asksOnly trivial) fun _ => trivial
  · refine asksOnly_bind (callLocal_asksOnly trivial) fun present => ?_
    split
    · trivial
    · exact asksOnly_bind (callLocal_asksOnly trivial) fun _ => trivial
  · trivial

theorem prepareImage_ok {spec' : Container} (h : (s.prepareImage p name spec).Play es (.ok spec')) :
    spec' = prepared s.network name spec ∧ faults es = [] := by
  unfold prepareImage at h
  unfold prepared
  split at h
  · rename_i hbuild
    obtain ⟨a, rest, rfl, ⟨_, _, _, hr⟩ | ⟨_, rfl, hrest⟩⟩ := play_callLocal_bind_iff.1 h
    · cases hr
    · obtain ⟨rfl, hr⟩ := play_done_iff.1 hrest
      cases hr
      exact ⟨by simp only [hbuild], rfl⟩
  · rename_i hbuild himage
    obtain ⟨a, rest, rfl, ⟨_, _, _, hr⟩ | ⟨present, rfl, hrest⟩⟩ := play_callLocal_bind_iff.1 h
    · cases hr
    · split at hrest
      · obtain ⟨rfl, hr⟩ := play_done_iff.1 hrest
        cases hr
        exact ⟨by simp only [hbuild], rfl⟩
      · obtain ⟨a, _, rfl, ⟨_, _, _, hr⟩ | ⟨_, rfl, hpulled⟩⟩ := play_callLocal_bind_iff.1 hrest
        · cases hr
        · obtain ⟨rfl, hr⟩ := play_done_iff.1 hpulled
          cases hr
          exact ⟨by simp only [hbuild], rfl⟩
  · rename_i hbuild himage
    obtain ⟨rfl, hr⟩ := play_done_iff.1 h
    cases hr
    exact ⟨by simp only [hbuild], rfl⟩

/-- an image that cannot be prepared is the fault of the last call -/
theorem prepareImage_error (h : (s.prepareImage p name spec).Play es (.error f)) :
    ∃ own q g, es = own ++ [⟨.call q, .error g⟩] ∧ faults own = [] ∧ f = .fault g := by
  unfold prepareImage at h
  split at h
  · obtain ⟨a, rest, rfl, ⟨g, rfl, rfl, hr⟩ | ⟨_, rfl, hrest⟩⟩ := play_callLocal_bind_iff.1 h
    · cases hr
      exact ⟨[], _, g, rfl, rfl, rfl⟩
    · cases (play_done_iff.1 hrest).2
  · obtain ⟨a, rest, rfl, ⟨g, rfl, rfl, hr⟩ | ⟨present, rfl, hrest⟩⟩ := play_callLocal_bind_iff.1 h
    · cases hr
      exact ⟨[], _, g, rfl, rfl, rfl⟩
    · split at hrest
      · cases (play_done_iff.1 hrest).2
      · obtain ⟨a, _, rfl, ⟨g, rfl, rfl, hr⟩ | ⟨_, rfl, hpulled⟩⟩ := play_callLocal_bind_iff.1 hrest
        · cases hr
          exact ⟨[_], _, g, rfl, rfl, rfl⟩
        · cases (play_done_iff.1 hpulled).2
  · cases (play_done_iff.1 h).2

theorem start_asksOnly (s : Stack) (p : Project) (c : Composition) (name : String) :
    (s.start p c name).AsksOnly Ask.BringsUp := by
  refine asksOnly_bind ⟨trivial, fun _ => trivial⟩ fun interrupted => ?_
  cases interrupted with
  | true => trivial
  | false =>
    cases c.services.get? name with
    | none => trivial
    | some spec =>
      refine asksOnly_bind ((prepareImage_asksOnly s p name _).mono ?_) fun spec => ?_
      · intro q hq
        unfold Ask.Prepares at hq
        split at hq <;> trivial
      · refine asksOnly_bind (callLocal_asksOnly trivial) fun _ => ?_
        exact asksOnly_bind ⟨trivial, fun _ => trivial⟩ fun _ => trivial

/-- what the start of a component is, once the token was looked at and the component found -/
theorem play_start_found {r : Except LocalFault (String × Stack)} (hspec : c.services.get? name = some spec)
    (h : (s.start p c name).Play es r) : (es = [⟨.cancelled, true⟩] ∧ r = .error (.interruptedStart name)) ∨
      ∃ own rest, es = ⟨.cancelled, false⟩ :: own ++ rest ∧ (∀ e ∈ own, e.1.Prepares) ∧
        ((∃ g, r = .error g ∧ rest = [] ∧ (s.prepareImage p name spec).Play own (.error g)) ∨
          (faults own = [] ∧ ∃ a more, rest = ⟨.call (.start (spec.runName name) (prepared s.network name spec)
            (some s.network)), a⟩ :: more ∧
            ((∃ g, a = .error g ∧ more = [] ∧ r = .error (.fault g)) ∨
              ∃ id, a = .ok id ∧ more = [⟨.note s!"  + {name}", ()⟩] ∧
                r = .ok (spec.runName name, { s with started := spec.runName name :: s.started })))) := by
  obtain ⟨interrupted, rest, rfl, hgo⟩ := play_cancelled_bind_iff.1 h
  cases interrupted with
  | true =>
    obtain ⟨rfl, hr⟩ := play_fail_iff.1 hgo
    exact .inl ⟨rfl, hr⟩
  | false =>
    simp only [hspec] at hgo
    obtain ⟨g, rfl, hprepare⟩ | ⟨spec', own, rest, rfl, hprepare, hstart⟩ := play_bind_iff.1 hgo
    · exact .inr ⟨rest, [], by simp, hprepare.asked (prepareImage_asksOnly _ _ _ _), .inl ⟨g, rfl, rfl, hprepare⟩⟩
    · have hown := hprepare.asked (prepareImage_asksOnly _ _ _ _)
      obtain ⟨rfl, hquiet⟩ := prepareImage_ok hprepare
      rw [prepared_runName] at hstart
      obtain ⟨a, more, rfl, hend⟩ := play_callLocal_bind_iff.1 hstart
      refine .inr ⟨own, _, rfl, hown, .inr ⟨hquiet, a, more, rfl, hend.imp_right ?_⟩⟩
      rintro ⟨id, rfl, hsaid⟩
      obtain ⟨_, rfl, hdone⟩ := play_note_bind_iff.1 hsaid
      obtain ⟨rfl, hr⟩ := play_done_iff.1 hdone
      exact ⟨id, rfl, rfl, hr⟩

theorem start_ok {container : String} (h : (s.start p c name).Play es (.ok (container, s'))) :
    ∃ spec, c.services.get? name = some spec ∧ container = spec.runName name ∧
      s' = { s with started := container :: s.started } ∧
      launches es = [(container, prepared s.network name spec, some s.network)] := by
  cases hspec : c.services.get? name with
  | none =>
    obtain ⟨interrupted, rest, -, hgo⟩ := play_cancelled_bind_iff.1 h
    simp only [hspec] at hgo
    cases interrupted <;> cases (play_fail_iff.1 hgo).2
  | some spec =>
    obtain ⟨_, hr⟩ | ⟨own, rest, rfl, hown, ⟨g, hr, _⟩ | ⟨_, a, more, rfl, ⟨g, _, _, hr⟩ | ⟨id, rfl, rfl, hr⟩⟩⟩ :=
      play_start_found hspec h
    · cases hr
    · cases hr
    · cases hr
    · cases hr
      refine ⟨spec, rfl, rfl, rfl, ?_⟩
      have hquiet : launches own = [] := launches_eq_nil hown fun _ _ _ h => h
      rw [List.cons_append, launches, List.filterMap_cons_none rfl, ← launches, launches_append, hquiet]
      rfl

theorem start_error (h : (s.start p c name).Play es (.error f)) : StartFailure c name es f ∧ launches es = [] := by
  cases hspec : c.services.get? name with
  | none =>
    obtain ⟨interrupted, rest, rfl, hgo⟩ := play_cancelled_bind_iff.1 h
    simp only [hspec] at hgo
    cases interrupted with
    | true =>
      obtain ⟨rfl, hr⟩ := play_fail_iff.1 hgo
      cases hr
      exact ⟨.interrupted, rfl⟩
    | false =>
      obtain ⟨rfl, hr⟩ := play_fail_iff.1 hgo
      cases hr
      exact ⟨.unknown hspec, rfl⟩
  | some spec =>
    obtain ⟨rfl, hr⟩ | ⟨own, rest, rfl, hown, hend⟩ := play_start_found hspec h
    · cases hr
      exact ⟨.interrupted, rfl⟩
    · have hquiet : launches own = [] := launches_eq_nil hown fun _ _ _ h => h
      obtain ⟨g, hr, rfl, hprepare⟩ | ⟨hfaults, a, more, rfl, ⟨g, rfl, rfl, hr⟩ | ⟨id, _, _, hr⟩⟩ := hend
      · cases hr
        obtain ⟨before, q, g, rfl, hfaults, rfl⟩ := prepareImage_error hprepare
        have hfailure : StartFailure c name ((⟨.cancelled, false⟩ :: before) ++ [⟨.call q, .error g⟩]) (.fault g) :=
          .call _ q g hfaults
        refine ⟨by simpa using hfailure, ?_⟩
        rw [List.append_nil, launches, List.filterMap_cons_none rfl]
        exact hquiet
      · cases hr
        refine ⟨.call (⟨.cancelled, false⟩ :: own) _ g hfaults, ?_⟩
        rw [launches_append, launches, List.filterMap_cons_none rfl, ← launches, hquiet]
        rfl
      · cases hr

/-! ## Taking a stack down -/

/-- containers are stopped one after the other; each is removed just if it was stopped -/
inductive Stopped : List String → List Asked → Prop
  | nil : Stopped [] []
  | stuck (name : String) (f : Fault) {rest : List String} {es : List Asked} (h : Stopped rest es) :
    Stopped (name :: rest) (⟨.call (.stop name), .error f⟩ :: es)
  | kept (name : String) (f : Fault) {rest : List String} {es : List Asked} (h : Stopped rest es) :
    Stopped (name :: rest) (⟨.call (.stop name), .ok ()⟩ :: ⟨.call (.remove name), .error f⟩ :: es)
  | gone (name : String) {rest : List String} {es : List Asked} (h : Stopped rest es) :
    Stopped (name :: rest)
      (⟨.call (.stop name), .ok ()⟩ :: ⟨.call (.remove name), .ok ()⟩ :: ⟨.note s!"  - {name}", ()⟩ :: es)

theorem Stopped.asked {names : List String} (h : Stopped names es) : ∀ e ∈ es, e.1.Stops names := by
  have hrest {name : String} {rest : List String} {q : Ask} (hq : q.Stops rest) : q.Stops (name :: rest) :=
    hq.mono (List.subset_cons_self _ _)
  induction h with
  | nil => simp
  | stuck name f _ ih =>
    rw [List.forall_mem_cons]
    exact ⟨List.mem_cons_self, fun e he => hrest (ih e he)⟩
  | kept name f _ ih =>
    rw [List.forall_mem_cons, List.forall_mem_cons]
    exact ⟨List.mem_cons_self, List.mem_cons_self, fun e he => hrest (ih e he)⟩
  | gone name _ ih =>
    rw [List.forall_mem_cons, List.forall_mem_cons, List.forall_mem_cons]
    exact ⟨List.mem_cons_self, List.mem_cons_self, trivial, fun e he => hrest (ih e he)⟩

theorem play_stopOne_iff {r : Except Fault Unit} :
    (stopOne name).Play es r ↔ (∃ g, es = [⟨.call (.stop name), .error g⟩] ∧ r = .error g) ∨
      es = [⟨.call (.stop name), .ok ()⟩, ⟨.call (.remove name), r⟩] := by
  simp only [stopOne, play_bind_iff]
  constructor
  · rintro (⟨g, rfl, hstop⟩ | ⟨_, _, _, rfl, hstop, hremove⟩)
    · exact .inl ⟨g, play_call_iff.1 hstop, rfl⟩
    · rw [play_call_iff.1 hstop, play_call_iff.1 hremove]
      exact .inr rfl
  · rintro (⟨g, rfl, rfl⟩ | rfl)
    · exact .inl ⟨g, rfl, play_call_iff.2 rfl⟩
    · exact .inr ⟨(), [_], [_], rfl, play_call_iff.2 rfl, play_call_iff.2 rfl⟩

theorem stopAll_stopped {names : List String} {first x : Option Fault}
    (h : (stopAll first names).Play es (.ok x)) : Stopped names es ∧ x = first.or (faults es).head? := by
  induction names generalizing first es with
  | nil =>
    obtain ⟨rfl, hx⟩ := play_done_iff.1 h
    cases hx
    exact ⟨.nil, by simp [faults]⟩
  | cons name rest ih =>
    obtain ⟨result, es₁, es₂, rfl, hone, hgo⟩ := play_attempt_bind_iff.1 h
    cases result with
    | ok _ =>
      obtain ⟨es₂, rfl, hothers⟩ := play_note_bind_iff.1 hgo
      obtain ⟨hrest, hx⟩ := ih hothers
      obtain ⟨_, _, hr⟩ | rfl := play_stopOne_iff.1 hone
      · cases hr
      · exact ⟨.gone name hrest, hx⟩
    | error g =>
      obtain ⟨hrest, rfl⟩ := ih hgo
      have hfirst : (first.or (some g)).or (faults es₂).head? = first.or (some g) := by cases first <;> rfl
      obtain ⟨g, rfl, hr⟩ | rfl := play_stopOne_iff.1 hone
      · cases hr
        exact ⟨.stuck name _ hrest, hfirst⟩
      · exact ⟨.kept name g hrest, hfirst⟩

/-- what taking a stack of these containers down exchanges: the network goes last, whatever happened before -/
def TakenDown (network : String) (names : List String) (es : List Asked) : Prop :=
  ∃ stopping last, Stopped names stopping ∧ es = stopping ++ [⟨.call (.removeNetwork network), last⟩]

theorem teardown_takenDown {x : Option Fault} (h : s.teardown.Play es (.ok x)) :
    TakenDown s.network s.started es ∧ x = (faults es).head? := by
  obtain ⟨_, hnever, _⟩ | ⟨first, es₁, es₂, rfl, hstop, hnetwork⟩ := play_bind_iff.1 h
  · cases hnever
  obtain ⟨hstopped, rfl⟩ := stopAll_stopped hstop
  obtain ⟨last, es₃, es₄, rfl, hlast, hend⟩ := play_attempt_bind_iff.1 hnetwork
  obtain rfl := play_call_iff.1 hlast
  rw [faults_append, List.head?_append]
  cases last with
  | ok _ =>
    obtain ⟨rfl, hx⟩ := play_done_iff.1 hend
    cases hx
    exact ⟨⟨es₁, .ok (), hstopped, rfl⟩, by simp [faults, Asked.fault?]⟩
  | error g =>
    obtain ⟨rfl, hx⟩ := play_done_iff.1 hend
    cases hx
    exact ⟨⟨es₁, .error g, hstopped, rfl⟩, rfl⟩

/-- taking a stack down cannot fail, so what follows it happens -/
theorem play_teardown_bind {g : Option Fault → Action LocalFault α} {r : Except LocalFault α}
    (h : ((widenLocal s.teardown).bind g).Play es r) : ∃ down rest, es = down ++ rest ∧
      TakenDown s.network s.started down ∧ (g (faults down).head?).Play rest r := by
  obtain ⟨_, _, hdown⟩ | ⟨x, down, rest, rfl, hdown, hrest⟩ := play_bind_iff.1 h
  · obtain ⟨x, hx, hdown⟩ := play_mapFailure_iff.1 hdown
    obtain ⟨_, rfl⟩ := Action.exists_result hdown
    cases hx
  · obtain ⟨x, hx, hdown⟩ := play_mapFailure_iff.1 hdown
    obtain ⟨_, rfl⟩ := Action.exists_result hdown
    cases hx
    obtain ⟨htaken, rfl⟩ := teardown_takenDown hdown
    exact ⟨down, rest, rfl, htaken, hrest⟩

end Stack

end Fleet
