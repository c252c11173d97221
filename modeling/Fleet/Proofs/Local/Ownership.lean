/-
A stack touches no containers but its own.

On three occasions containers are stopped and removed: leftovers before there is a network, what was running when a
component failed to start, and a stack that is taken down. Each works out its own names. They are always names under
which components of the composition run (`IsOwn`), whatever the engine lists and whichever calls fail.
- `ownOnly_of_start`, `ownOnly_of_startAll`: what is started has such a name, so a stack holds no others.
- `own_containers_only`: so nothing else is started, stopped or removed while a composition is brought up, nor later.
  Leftovers are all gone before the network is made.
-/
import Fleet.Proofs.Local.Dependencies

namespace Fleet

open Dialogue

/-- the container that a call acts on -/
def Call.container? : Call → Option String
  | .start name _ _ | .wait name | .stop name | .remove name => some name
  | _ => none

/-- the containers that calls acted on, in order -/
def touched (es : List Asked) : List String := (calls es).filterMap Call.container?

theorem mem_touched {name : String} {es : List Asked} :
    name ∈ touched es ↔ ∃ q a, (⟨.call q, a⟩ : Asked) ∈ es ∧ q.container? = some name := by
  simp only [touched, List.mem_filterMap, mem_calls]
  constructor
  · rintro ⟨q, ⟨a, he⟩, hname⟩
    exact ⟨q, a, he, hname⟩
  · rintro ⟨q, a, he, hname⟩
    exact ⟨q, ⟨a, he⟩, hname⟩

namespace Stack

variable {p : Project} {c : Composition} {network name : String} {s s' : Stack} {order : List String}
  {es es₁ es₂ : List Asked} {r : Except LocalFault Stack}

/-- a component of the composition runs under this name -/
def IsOwn (c : Composition) (name : String) : Prop :=
  ∃ component spec, c.services.get? component = some spec ∧ spec.runName component = name

/-- no container was acted on but those of the composition -/
def OwnOnly (c : Composition) (es : List Asked) : Prop := ∀ name ∈ touched es, IsOwn c name

theorem mem_runNames_iff : name ∈ runNames c ↔ IsOwn c name := by
  simp only [runNames, List.mem_map, IsOwn, ← SortedMap.mem_entries_iff]
  constructor
  · rintro ⟨⟨component, spec⟩, he, hname⟩
    exact ⟨component, spec, he, hname⟩
  · rintro ⟨component, spec, he, hname⟩
    exact ⟨_, he, hname⟩

theorem ownOnly_nil : OwnOnly c [] := List.forall_mem_nil _

theorem ownOnly_append_iff : OwnOnly c (es₁ ++ es₂) ↔ OwnOnly c es₁ ∧ OwnOnly c es₂ := by
  simp only [OwnOnly, touched, calls_append, List.filterMap_append, List.forall_mem_append]

/-- a call that acts on no container can stand anywhere -/
theorem ownOnly_cons {q : Call} {a : Ask.Answer (.call q)} (hq : q.container? = none) (h : OwnOnly c es) :
    OwnOnly c (⟨.call q, a⟩ :: es) := by
  intro name hname
  obtain ⟨q', a', he, hq'⟩ := mem_touched.1 hname
  rcases List.mem_cons.1 he with heq | he
  · cases heq
    rw [hq] at hq'
    cases hq'
  · exact h name (mem_touched.2 ⟨q', a', he, hq'⟩)

theorem ownOnly_of_stops {names : List String} (h : ∀ e ∈ es, e.1.Stops names) (hnames : ∀ n ∈ names, IsOwn c n) :
    OwnOnly c es := by
  intro name hname
  obtain ⟨q, a, he, hq⟩ := mem_touched.1 hname
  have hstops : Ask.Stops names (.call q) := h _ he
  unfold Ask.Stops at hstops
  split at hstops
  · rename_i heq
    cases heq
    cases hq
    exact hnames name hstops
  · rename_i heq
    cases heq
    cases hq
    exact hnames name hstops
  · trivial
  · exact hstops.elim

/-! ## Starting -/

/-- all that a stack holds are containers of the composition -/
def HoldsOwn (c : Composition) (s : Stack) : Prop := ∀ name ∈ s.started, IsOwn c name

/-- **The start of a component acts on its container at most**, and if it succeeds the stack holds one more. -/
theorem ownOnly_of_start {x : Except LocalFault (String × Stack)} (h : (s.start p c name).Play es x) :
    OwnOnly c es ∧ ∀ container s', x = .ok (container, s') → HoldsOwn c s → HoldsOwn c s' := by
  constructor
  · intro target htarget
    obtain ⟨q, a, he, hq⟩ := mem_touched.1 htarget
    have hbrings : Ask.BringsUp (.call q) := h.asked (start_asksOnly _ _ _ _) _ he
    cases q with
    | start started spec net =>
      cases hq
      obtain ⟨quiet, rest, rfl, hquiet, rfl | ⟨launched, _, said, hlaunch, hsaid, rfl⟩⟩ := start_exchange h
      · rw [List.append_nil] at he
        exact (hquiet _ he).elim
      · rcases List.mem_append.1 he with he | he
        · exact (hquiet _ he).elim
        rcases List.mem_cons.1 he with heq | he
        · cases heq
          obtain ⟨spec, hspec, rfl⟩ := Option.map_eq_some_iff.1 hlaunch
          exact ⟨name, spec, hspec, rfl⟩
        · exact (hsaid _ he).elim
    | wait | stop | remove => exact hbrings.elim
    | _ => cases hq
  · rintro container s' rfl hown
    obtain ⟨spec, hspec, rfl, rfl, _⟩ := start_ok h
    exact List.forall_mem_cons.2 ⟨⟨name, spec, hspec, rfl⟩, hown⟩

theorem ownOnly_of_takenDown (h : TakenDown network s.started es) (hown : HoldsOwn c s) : OwnOnly c es := by
  obtain ⟨stopping, last, hstopped, rfl⟩ := h
  exact ownOnly_append_iff.2 ⟨ownOnly_of_stops hstopped.asked hown, ownOnly_cons rfl ownOnly_nil⟩

/-- **Starting components one after the other acts on theirs only**, even if one fails and the others are stopped. -/
theorem ownOnly_of_startAll (h : (startAll p c order s).Play es r) (hown : HoldsOwn c s) :
    OwnOnly c es ∧ ∀ s', r = .ok s' → HoldsOwn c s' := by
  induction order generalizing s es with
  | nil =>
    obtain ⟨rfl, rfl⟩ := play_done_iff.1 h
    refine ⟨ownOnly_nil, ?_⟩
    rintro _ ⟨⟩
    exact hown
  | cons name order ih =>
    obtain ⟨result, es₁, es₂, rfl, hstart, hgo⟩ := play_attempt_bind_iff.1 h
    obtain ⟨hfirst, hholds⟩ := ownOnly_of_start hstart
    cases result with
    | ok launched =>
      obtain ⟨hrest, hend⟩ := ih hgo (hholds _ _ rfl hown)
      exact ⟨ownOnly_append_iff.2 ⟨hfirst, hrest⟩, hend⟩
    | error f =>
      obtain ⟨down, _, rfl, hdown, hend⟩ := play_teardown_bind hgo
      obtain ⟨rfl, rfl⟩ := play_fail_iff.1 hend
      rw [List.append_nil]
      exact ⟨ownOnly_append_iff.2 ⟨hfirst, ownOnly_of_takenDown hdown hown⟩, fun _ hr => by cases hr⟩

/-! ## Leftovers -/

theorem removeStale_stops (names : List String) (l : List ContainerRecord) :
    (removeStale names l).AsksOnly (Ask.Stops names) := by
  induction l with
  | nil => trivial
  | cons r l ih =>
    unfold removeStale
    split
    · rename_i hnamed
      have hname : r.name ∈ names := by simpa using hnamed
      refine asksOnly_bind (callLocal_asksOnly hname) fun _ => ?_
      exact asksOnly_bind (callLocal_asksOnly hname) fun _ => ih
    · exact ih

theorem clearing_stops (names : List String) (l : List ContainerRecord) : ∀ e ∈ clearing names l, e.1.Stops names := by
  intro e he
  obtain ⟨r, hr, he⟩ := List.mem_flatMap.1 he
  have hname : r.name ∈ names := by simpa using (List.mem_filter.1 hr).2
  simp only [List.mem_cons, List.not_mem_nil, or_false] at he
  rcases he with rfl | rfl <;> exact hname

/-- **Bringing a composition up acts on its own containers only**; so does what the stack holds in the end. -/
theorem ownOnly_of_up (h : (up p network c order).Play es r) : OwnOnly c es ∧ ∀ s, r = .ok s → HoldsOwn c s := by
  obtain ⟨listing, rest, rfl, hrest⟩ := up_cases h
  suffices hcases : OwnOnly c rest ∧ ∀ s, r = .ok s → HoldsOwn c s from ⟨ownOnly_cons rfl hcases.1, hcases.2⟩
  obtain ⟨f, _, rfl, rfl⟩ | ⟨existing, rfl, ⟨f, rfl, hstale⟩ | ⟨made, es', rfl, hmade⟩⟩ := hrest
  · exact ⟨ownOnly_nil, fun _ hr => by cases hr⟩
  · have hstops := ownOnly_of_stops (hstale.asked (removeStale_stops _ _)) fun n => mem_runNames_iff.1
    exact ⟨hstops, fun _ hr => by cases hr⟩
  · have hcleared : OwnOnly c (clearing (runNames c) existing) :=
      ownOnly_of_stops (clearing_stops _ _) fun n => mem_runNames_iff.1
    suffices hstart : OwnOnly c es' ∧ ∀ s, r = .ok s → HoldsOwn c s from
      ⟨ownOnly_append_iff.2 ⟨hcleared, ownOnly_cons rfl hstart.1⟩, hstart.2⟩
    obtain ⟨f, rfl, rfl, rfl⟩ | ⟨rfl, hstart⟩ := hmade
    · exact ⟨ownOnly_nil, fun _ hr => by cases hr⟩
    · exact ownOnly_of_startAll hstart (by simp [HoldsOwn])

/-! ## Later -/

/-- more components are started, with or without success -/
inductive GoesOn (p : Project) (c : Composition) : Stack → List Asked → Stack → Prop
  | refl (s : Stack) : GoesOn p c s [] s
  | started {s t s' : Stack} {name container : String} {es₁ es₂ : List Asked}
      (h : (s.start p c name).Play es₁ (.ok (container, t))) (rest : GoesOn p c t es₂ s') : GoesOn p c s (es₁ ++ es₂) s'
  | failed {s s' : Stack} {name : String} {f : LocalFault} {es₁ es₂ : List Asked}
      (h : (s.start p c name).Play es₁ (.error f)) (rest : GoesOn p c s es₂ s') : GoesOn p c s (es₁ ++ es₂) s'

theorem ownOnly_of_goesOn (h : GoesOn p c s es s') (hown : HoldsOwn c s) : OwnOnly c es ∧ HoldsOwn c s' := by
  induction h with
  | refl s => exact ⟨ownOnly_nil, hown⟩
  | started h _ ih =>
    obtain ⟨hfirst, hholds⟩ := ownOnly_of_start h
    obtain ⟨hrest, hend⟩ := ih (hholds _ _ rfl hown)
    exact ⟨ownOnly_append_iff.2 ⟨hfirst, hrest⟩, hend⟩
  | failed h _ ih =>
    obtain ⟨hrest, hend⟩ := ih hown
    exact ⟨ownOnly_append_iff.2 ⟨(ownOnly_of_start h).1, hrest⟩, hend⟩

/-- **A stack touches no containers but its own**, whatever is listed, in whatever order components are started, and
whichever calls fail.
- While a composition is brought up, no container is started, stopped or removed but under the name of a component.
- If it gets as far as making the network, then all that happened before is: containers were listed, and those that have
  such a name were stopped and removed, one after the other as they were listed. No other listed container is touched.
- So it stays when more components are started, and when the stack is taken down. -/
theorem own_containers_only (h : (up p network c order).Play es r) :
    OwnOnly c es ∧
    ((∃ n, .createNetwork n ∈ calls es) → ∃ existing made rest, es = ⟨.call .listContainers, .ok existing⟩ ::
      (clearing (runNames c) existing ++ ⟨.call (.createNetwork network), made⟩ :: rest) ∧
      ∀ record ∈ existing, ¬ IsOwn c record.name → record.name ∉ touched es) ∧
    ∀ s, r = .ok s → ∀ more s', GoesOn p c s more s' → OwnOnly c more ∧
      ∀ down first, s'.teardown.Play down (.ok first) → OwnOnly c down := by
  obtain ⟨hown, hholds⟩ := ownOnly_of_up h
  refine ⟨hown, ?_, ?_⟩
  · rintro ⟨n, hmade⟩
    obtain ⟨listing, rest, rfl, ⟨f, _, rfl, _⟩ | ⟨existing, rfl, ⟨f, _, hstale⟩ | ⟨made, es', rfl, _⟩⟩⟩ := up_cases h
    · exact absurd hmade (by simp [calls, Asked.call?])
    · have hswept : ∀ e ∈ (⟨.call .listContainers, .ok existing⟩ : Asked) :: rest, e.1.Sweeps :=
        List.forall_mem_cons.2 ⟨trivial, hstale.asked (removeStale_asksOnly _ _)⟩
      exact absurd hmade (not_mem_calls hswept id)
    · exact ⟨existing, made, es', rfl, fun record _ hother htouched => hother (hown _ htouched)⟩
  · rintro s rfl more s' hmore
    obtain ⟨hbetween, hlast⟩ := ownOnly_of_goesOn hmore (hholds s rfl)
    exact ⟨hbetween, fun down first hdown => ownOnly_of_takenDown (teardown_takenDown hdown).1 hlast⟩

/-! ## A shop with neighbours -/

/-- pages of an earlier run, listed twice, and a container that is called like the component but runs for somebody
else -/
def neighbours : Rehearsal.Script where
  existing := ["web", "shop-web", "database", "shop-web"]

/-- what is left of the shop goes before there is a network, and the other pages stay to the end -/
theorem neighbours_are_spared : ∃ es existing made rest, shopRun.Play es (.ok ⟨"shop", ["shop-web", "database"]⟩) ∧
    es = ⟨.call .listContainers, .ok existing⟩ ::
      (clearing ["database", "shop-web"] existing ++ ⟨.call (.createNetwork "shop"), made⟩ :: rest) ∧
    existing.map ContainerRecord.name = ["web", "shop-web", "database", "shop-web"] ∧ "web" ∉ touched es ∧
    ∀ down first, (Stack.mk "shop" ["shop-web", "database"]).teardown.Play down (.ok first) → "web" ∉ touched down := by
  have hresult : (shopRun.run (Rehearsal.answer neighbours) {}).1 = .ok ⟨"shop", ["shop-web", "database"]⟩ := rfl
  have hmade : (calls (shopRun.transcript (Rehearsal.answer neighbours) {}))[7]? = some (.createNetwork "shop") := rfl
  have hplay := hresult ▸ play_run (Rehearsal.answer neighbours) shopRun {}
  have hother : ¬ IsOwn shopContainers "web" := fun h => absurd (mem_runNames_iff.2 h) (by decide)
  obtain ⟨hown, hbegun, hlater⟩ := own_containers_only hplay
  obtain ⟨existing, made, rest, hes, -⟩ := hbegun ⟨_, List.mem_of_getElem? hmade⟩
  have hlisted : (shopRun.transcript (Rehearsal.answer neighbours) {}).head? = some ⟨.call .listContainers, .ok
      (neighbours.existing.map fun name => ⟨name, "", ""⟩)⟩ := rfl
  refine ⟨_, existing, made, rest, hplay, hes, ?_, fun h => hother (hown _ h), ?_⟩
  · rw [hes, List.head?_cons] at hlisted
    cases hlisted
    rfl
  · intro down first hdown h
    exact hother ((hlater _ rfl [] _ (.refl _)).2 down first hdown _ h)

end Stack

end Fleet
