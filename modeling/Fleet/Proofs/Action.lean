/-
Plays of actions.

What an action asks its surroundings is one call, one look at the token or one line of progress at a time. For each of
these the plays are given in full, alone and with what follows, and `calls` picks the calls out of an exchange.
-/
import Fleet.Collaborator
import Fleet.Proofs.Play

namespace Fleet

open Dialogue

/-- a question to the surroundings and its answer -/
abbrev Asked := Exchange Ask Ask.Answer

/-- an action that cannot fail has a result -/
theorem Action.exists_result {α : Type} {a : Action Empty α} {es : List Asked} {r : Except Empty α}
    (_h : a.Play es r) : ∃ x, r = .ok x := by
  cases r with
  | ok x => exact ⟨x, rfl⟩
  | error e => exact e.elim

theorem play_cancelled_bind_iff {ε α : Type} {f : Bool → Action ε α} {es : List Asked} {r : Except ε α} :
    (Action.cancelled.bind f).Play es r ↔ ∃ c rest, es = ⟨.cancelled, c⟩ :: rest ∧ (f c).Play rest r :=
  play_ask_iff

theorem play_say_bind_iff {ε α : Type} {text : String} {f : Unit → Action ε α} {es : List Asked} {r : Except ε α} :
    ((Action.say text).bind f).Play es r ↔ ∃ rest, es = ⟨.say text, ()⟩ :: rest ∧ (f ()).Play rest r := by
  refine play_ask_iff.trans ⟨?_, ?_⟩
  · rintro ⟨_, rest, rfl, h⟩; exact ⟨rest, rfl, h⟩
  · rintro ⟨rest, rfl, h⟩; exact ⟨(), rest, rfl, h⟩

theorem play_note_bind_iff {ε α : Type} {line : String} {f : Unit → Action ε α} {es : List Asked} {r : Except ε α} :
    ((Action.note line).bind f).Play es r ↔ ∃ rest, es = ⟨.note line, ()⟩ :: rest ∧ (f ()).Play rest r := by
  refine play_ask_iff.trans ⟨?_, ?_⟩
  · rintro ⟨_, rest, rfl, h⟩; exact ⟨rest, rfl, h⟩
  · rintro ⟨rest, rfl, h⟩; exact ⟨(), rest, rfl, h⟩

theorem play_call_iff {c : Call} {es : List Asked} {r : Except Fault c.Answer} :
    (Action.call c).Play es r ↔ es = [⟨.call c, r⟩] := by
  simp only [Action.call, play_ask_iff, play_ofExcept_iff]
  constructor
  · rintro ⟨x, _, rfl, rfl, rfl⟩; rfl
  · rintro rfl; exact ⟨r, [], rfl, rfl, rfl⟩

theorem play_call_done_iff {α : Type} {c : Call} {f : c.Answer → α} {es : List Asked} {r : Except Fault α} :
    ((Action.call c).bind fun x => .done (f x)).Play es r ↔ ∃ a, es = [⟨.call c, a⟩] ∧ r = a.map f := by
  simp only [play_bind_iff, play_call_iff, play_done_iff]
  constructor
  · rintro (⟨e, rfl, rfl⟩ | ⟨x, _, _, rfl, rfl, rfl, rfl⟩)
    · exact ⟨.error e, rfl, rfl⟩
    · exact ⟨.ok x, rfl, rfl⟩
  · rintro ⟨a, rfl, rfl⟩
    cases a with
    | error e => exact .inl ⟨e, rfl, rfl⟩
    | ok x => exact .inr ⟨x, _, [], rfl, rfl, rfl, rfl⟩

theorem play_ofExcept_bind_iff {ε α β : Type} {x : Except ε α} {f : α → Action ε β} {es : List Asked}
    {r : Except ε β} :
    ((Dialogue.ofExcept x).bind f).Play es r ↔
      (∃ e, x = .error e ∧ es = [] ∧ r = .error e) ∨ ∃ a, x = .ok a ∧ (f a).Play es r := by
  cases x with
  | ok a => simp [Dialogue.ofExcept]
  | error e => simp [Dialogue.ofExcept]

theorem asksOnly_call {P : Ask → Prop} {c : Call} (h : P (.call c)) : (Action.call c).AsksOnly P :=
  ⟨h, fun _ => asksOnly_ofExcept _⟩

/-! ## The calls of an exchange -/

def Asked.call? : Asked → Option Call
  | ⟨.call c, _⟩ => some c
  | _ => none

/-- the calls that were made, in order -/
def calls (es : List Asked) : List Call := es.filterMap Asked.call?

@[simp] theorem calls_append (es₁ es₂ : List Asked) : calls (es₁ ++ es₂) = calls es₁ ++ calls es₂ :=
  List.filterMap_append

theorem mem_calls {es : List Asked} {c : Call} : c ∈ calls es ↔ ∃ r, (⟨.call c, r⟩ : Asked) ∈ es := by
  simp only [calls, List.mem_filterMap]
  constructor
  · rintro ⟨e, he, hc⟩
    unfold Asked.call? at hc
    split at hc
    · cases hc; exact ⟨_, he⟩
    · cases hc
  · rintro ⟨r, he⟩; exact ⟨_, he, rfl⟩

theorem not_mem_calls {es : List Asked} {P : Ask → Prop} (h : ∀ e ∈ es, P e.1) {c : Call} (hc : ¬ P (.call c)) :
    c ∉ calls es := by
  intro hin
  obtain ⟨r, he⟩ := mem_calls.1 hin
  exact hc (h _ he)

end Fleet
