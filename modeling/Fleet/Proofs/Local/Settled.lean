/-
Exchanges that leave nothing running.

In a settled exchange every container that is started is stopped later on, and removed next if that worked, and every
network that is made is removed later on. Settled exchanges may follow each other (`Settled.append`). What a stack
starts is settled once the stack is taken down, whatever fails on the way (`settled_of_takenDown`); a bring-up that
fails is settled by itself (`settled_of_up_error`).
-/
import Fleet.Proofs.Local.BringUp

namespace Fleet

open Dialogue

/-- a container is stopped, and removed next if that worked -/
def StoppedIn (name : String) (es : List Asked) : Prop :=
  ∃ a rest, (⟨.call (.stop name), a⟩ : Asked) :: rest <:+ es ∧
    (a = .ok () → ∃ b, rest.head? = some ⟨.call (.remove name), b⟩)

/-- what this answer brought up is taken down in what follows -/
def Asked.TakenBackIn (after : List Asked) : Asked → Prop
  | ⟨.call (.start name _ _), .ok _⟩ => StoppedIn name after
  | ⟨.call (.createNetwork network), .ok _⟩ => ∃ a, (⟨.call (.removeNetwork network), a⟩ : Asked) ∈ after
  | _ => True

/-- whatever the exchange brings up, it takes down later -/
def Settled (es : List Asked) : Prop := ∀ e after, e :: after <:+ es → e.TakenBackIn after

section

variable {name : String} {e : Asked} {es after : List Asked}

theorem StoppedIn.prepend (before : List Asked) (h : StoppedIn name es) : StoppedIn name (before ++ es) := by
  obtain ⟨a, rest, hstop, hremove⟩ := h
  exact ⟨a, rest, hstop.trans (List.suffix_append _ _), hremove⟩

theorem StoppedIn.append (more : List Asked) (h : StoppedIn name es) : StoppedIn name (es ++ more) := by
  obtain ⟨a, rest, ⟨before, rfl⟩, hremove⟩ := h
  refine ⟨a, rest ++ more, ⟨before, by simp⟩, fun ha => ?_⟩
  obtain ⟨b, hb⟩ := hremove ha
  exact ⟨b, by rw [List.head?_append, hb]; rfl⟩

theorem Asked.TakenBackIn.prepend (before : List Asked) (h : e.TakenBackIn after) :
    e.TakenBackIn (before ++ after) := by
  unfold TakenBackIn at h ⊢
  split
  · exact StoppedIn.prepend before h
  · obtain ⟨a, hnetwork⟩ := h
    exact ⟨a, List.mem_append_right _ hnetwork⟩
  · trivial

theorem Asked.TakenBackIn.append (more : List Asked) (h : e.TakenBackIn after) : e.TakenBackIn (after ++ more) := by
  unfold TakenBackIn at h ⊢
  split
  · exact StoppedIn.append more h
  · obtain ⟨a, hnetwork⟩ := h
    exact ⟨a, List.mem_append_left _ hnetwork⟩
  · trivial

end

namespace Settled

variable {e : Asked} {es es₁ es₂ : List Asked}

theorem nil : Settled [] := by
  intro e after h
  cases List.suffix_nil.1 h

theorem cons_iff : Settled (e :: es) ↔ e.TakenBackIn es ∧ Settled es := by
  constructor
  · intro h
    exact ⟨h e es (List.suffix_refl _), fun e' after hin => h e' after (hin.trans (List.suffix_cons _ _))⟩
  · rintro ⟨hfirst, hrest⟩ e' after hin
    rcases List.suffix_cons_iff.1 hin with heq | hin
    · cases heq
      exact hfirst
    · exact hrest e' after hin

/-- settled exchanges may follow each other -/
theorem append (h₁ : Settled es₁) (h₂ : Settled es₂) : Settled (es₁ ++ es₂) := by
  induction es₁ with
  | nil => exact h₂
  | cons e es₁ ih =>
    obtain ⟨hfirst, hrest⟩ := cons_iff.1 h₁
    exact cons_iff.2 ⟨hfirst.append _, ih hrest⟩

/-- what is brought up first may be taken down at the end -/
theorem append_of_takenBack (h₁ : ∀ e ∈ es₁, e.TakenBackIn es₂) (h₂ : Settled es₂) : Settled (es₁ ++ es₂) := by
  induction es₁ with
  | nil => exact h₂
  | cons e es₁ ih =>
    obtain ⟨hfirst, hrest⟩ := List.forall_mem_cons.1 h₁
    exact cons_iff.2 ⟨hfirst.prepend _, ih hrest⟩

/-- an exchange in which no container is started and no network made is settled -/
theorem of_idle (hstart : ∀ l, l ∉ launches es) (hmake : ∀ network, .createNetwork network ∉ calls es) :
    Settled es := by
  intro e after hin
  have he := hin.subset List.mem_cons_self
  unfold Asked.TakenBackIn
  split
  · exact absurd (mem_launches.2 ⟨_, he⟩) (hstart _)
  · exact absurd (mem_calls.2 ⟨_, he⟩) (hmake _)
  · trivial

end Settled

namespace Stack

variable {c : Composition} {network name : String} {names : List String} {es work down : List Asked}

theorem Stopped.stoppedIn (h : Stopped names es) (hname : name ∈ names) : StoppedIn name es := by
  induction h with
  | nil => cases hname
  | stuck first f _ ih =>
    rcases List.mem_cons.1 hname with rfl | hname
    · exact ⟨_, _, List.suffix_refl _, nofun⟩
    · exact (ih hname).prepend [_]
  | kept first f _ ih =>
    rcases List.mem_cons.1 hname with rfl | hname
    · exact ⟨_, _, List.suffix_refl _, fun _ => ⟨_, rfl⟩⟩
    · exact (ih hname).prepend [_, _]
  | gone first _ ih =>
    rcases List.mem_cons.1 hname with rfl | hname
    · exact ⟨_, _, List.suffix_refl _, fun _ => ⟨_, rfl⟩⟩
    · exact (ih hname).prepend [_, _, _]

/-- **What a stack starts is settled when the stack is taken down.** -/
theorem settled_of_takenDown (hmake : ∀ n, .createNetwork n ∉ calls work) (hwork : ∀ l ∈ launches work, l.1 ∈ names)
    (hdown : TakenDown network names down) : Settled (work ++ down) := by
  obtain ⟨stopping, last, hstopped, rfl⟩ := hdown
  refine Settled.append_of_takenBack (fun e he => ?_) (Settled.append ?_ (Settled.cons_iff.2 ⟨trivial, Settled.nil⟩))
  · unfold Asked.TakenBackIn
    split
    · exact (hstopped.stoppedIn (hwork _ (mem_launches.2 ⟨_, he⟩))).append _
    · exact absurd (mem_calls.2 ⟨_, he⟩) (hmake _)
    · trivial
  · have hidle : launches stopping = [] := launches_eq_nil hstopped.asked fun _ _ _ => id
    exact Settled.of_idle (by simp [hidle]) fun _ => not_mem_calls hstopped.asked id

/-- the network that a stack was started on goes with it -/
theorem settled_of_made {swept : List Asked} (hswept : ∀ e ∈ swept, e.1.Sweeps) (hwork : Settled (work ++ down))
    (hdown : TakenDown network names down) :
    Settled (swept ++ ⟨.call (.createNetwork network), .ok ()⟩ :: (work ++ down)) := by
  have hidle : launches swept = [] := launches_eq_nil hswept fun _ _ _ => id
  refine Settled.append (Settled.of_idle (by simp [hidle]) fun _ => not_mem_calls hswept id) ?_
  obtain ⟨stopping, last, _, rfl⟩ := hdown
  exact Settled.cons_iff.2 ⟨⟨last, by simp⟩, hwork⟩

theorem Unbegun.settled (h : Unbegun network es) : Settled es := by
  intro e after hin
  unfold Asked.TakenBackIn
  split
  · exact absurd (mem_launches.2 ⟨_, hin.subset List.mem_cons_self⟩) (by simp [h.launches_eq_nil])
  · obtain hq | ⟨f, hq⟩ := h _ (hin.subset List.mem_cons_self)
    · exact hq.elim
    · cases hq
  · trivial

/-- **A bring-up that fails is settled.** -/
theorem settled_of_up_error {p : Project} {order : List String} {f : LocalFault}
    (h : (up p network c order).Play es (.error f)) : Settled es := by
  obtain ⟨_, _, hunbegun⟩ | ⟨swept, es', rfl, hswept, hstart⟩ := sweep_cases h
  · exact hunbegun.settled
  obtain ⟨_, hr, _⟩ | ⟨_, _, _, _, work, own, down, _, _, rfl, hwork, _, hown, hdown⟩ := startAll_cases hstart
  · cases hr
  refine settled_of_made hswept (settled_of_takenDown (fun n => ?_) (fun l hl => ?_) hdown) hdown
  · rw [calls_append, List.mem_append, not_or]
    exact ⟨not_mem_calls hwork.quiet id, not_mem_calls hown.quiet id⟩
  · have hidle : launches own = [] := List.map_eq_nil_iff.1 hown.launched
    rw [launches_append, hidle, List.append_nil] at hl
    rw [List.append_nil, List.mem_reverse]
    exact List.mem_map_of_mem hl

end Stack

end Fleet
