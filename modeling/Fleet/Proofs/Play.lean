/-
Plays: the runs of a dialogue against arbitrary surroundings.

A play is one path through a dialogue: the questions it asked, each with the answer it got, and how it ended.
No answer is excluded, so a statement about every play of a dialogue is a statement about all surroundings, with
or without a memory of their own.
- `play_run`: what `Dialogue.run` does against surroundings with a state is a play, so nothing that runs is left out.
- `play_bind_iff` and its companions: the plays of a composed dialogue are the plays of its parts, one after the
  other. Later proofs take dialogues apart with these and never look inside `bind`.
- `Play.asked`: a dialogue asks only the questions that stand in it.
- `Play.unique`: the answers decide what a dialogue asks and how it ends.
-/
import Fleet.Dialogue

namespace Fleet

namespace Dialogue

variable {Q : Type} {A : Q → Type} {ε δ α β σ : Type}

/-- a question and the answer it got -/
abbrev Exchange (Q : Type) (A : Q → Type) := (q : Q) × A q

/-- `p.Play es r`: with the answers of `es`, the dialogue asks just the questions of `es` and ends with `r` -/
inductive Play : Dialogue Q A ε α → List (Exchange Q A) → Except ε α → Prop
  | done (a : α) : Play (.done a) [] (.ok a)
  | fail (e : ε) : Play (.fail e) [] (.error e)
  | ask (q : Q) (next : A q → Dialogue Q A ε α) (x : A q) {es : List (Exchange Q A)} {r : Except ε α}
      (rest : Play (next x) es r) : Play (.ask q next) (⟨q, x⟩ :: es) r

/-- what is exchanged when surroundings with a state answer -/
def transcript (answer : (q : Q) → σ → A q × σ) : Dialogue Q A ε α → σ → List (Exchange Q A)
  | .done _, _ => []
  | .fail _, _ => []
  | .ask q next, s => ⟨q, (answer q s).1⟩ :: (next (answer q s).1).transcript answer (answer q s).2

/-- every run against surroundings with a state is a play -/
theorem play_run (answer : (q : Q) → σ → A q × σ) (p : Dialogue Q A ε α) (s : σ) :
    p.Play (p.transcript answer s) (p.run answer s).1 := by
  induction p generalizing s with
  | done a => exact .done a
  | fail e => exact .fail e
  | ask q next ih => exact .ask q next _ (ih _ _)

/-- what holds of every answer of the surroundings holds all through -/
theorem all_transcript {P : Exchange Q A → Prop} {answer : (q : Q) → σ → A q × σ} (h : ∀ q s, P ⟨q, (answer q s).1⟩)
    (p : Dialogue Q A ε α) (s : σ) : ∀ e ∈ p.transcript answer s, P e := by
  induction p generalizing s with
  | done a => simp [transcript]
  | fail e => simp [transcript]
  | ask q next ih =>
    intro e he
    rcases List.mem_cons.1 he with rfl | he
    · exact h q s
    · exact ih _ _ e he

/-! ## Plays of composed dialogues -/

theorem bind_assoc {γ : Type} (p : Dialogue Q A ε α) (f : α → Dialogue Q A ε β) (g : β → Dialogue Q A ε γ) :
    (p.bind f).bind g = p.bind fun a => (f a).bind g := by
  induction p with
  | done a => rfl
  | fail e => rfl
  | ask q next ih => simp only [bind, ih]

@[simp] theorem play_done_iff {a : α} {es : List (Exchange Q A)} {r : Except ε α} :
    (done a : Dialogue Q A ε α).Play es r ↔ es = [] ∧ r = .ok a := by
  constructor
  · intro h; cases h; exact ⟨rfl, rfl⟩
  · rintro ⟨rfl, rfl⟩; exact .done a

@[simp] theorem play_fail_iff {e : ε} {es : List (Exchange Q A)} {r : Except ε α} :
    (fail e : Dialogue Q A ε α).Play es r ↔ es = [] ∧ r = .error e := by
  constructor
  · intro h; cases h; exact ⟨rfl, rfl⟩
  · rintro ⟨rfl, rfl⟩; exact .fail e

theorem play_ask_iff {q : Q} {next : A q → Dialogue Q A ε α} {es : List (Exchange Q A)} {r : Except ε α} :
    (ask q next).Play es r ↔ ∃ x rest, es = ⟨q, x⟩ :: rest ∧ (next x).Play rest r := by
  constructor
  · intro h
    cases h with
    | ask _ _ x rest => exact ⟨x, _, rfl, rest⟩
  · rintro ⟨x, rest, rfl, h⟩
    exact .ask q next x h

/-- a bound dialogue fails with its first part, or goes on with the first part's result -/
theorem play_bind_iff {p : Dialogue Q A ε α} {f : α → Dialogue Q A ε β} {es : List (Exchange Q A)} {r : Except ε β} :
    (p.bind f).Play es r ↔
      (∃ e, r = .error e ∧ p.Play es (.error e)) ∨
      ∃ a es₁ es₂, es = es₁ ++ es₂ ∧ p.Play es₁ (.ok a) ∧ (f a).Play es₂ r := by
  induction p generalizing es with
  | done a =>
    simp only [bind_done, play_done_iff, reduceCtorEq, and_false, exists_false, false_or, Except.ok.injEq]
    constructor
    · intro h; exact ⟨a, [], es, rfl, ⟨rfl, rfl⟩, h⟩
    · rintro ⟨_, _, es₂, rfl, ⟨rfl, rfl⟩, h⟩; exact h
  | fail e =>
    simp only [bind_fail, play_fail_iff, reduceCtorEq, and_false, false_and, exists_false, or_false]
    constructor
    · rintro ⟨rfl, rfl⟩; exact ⟨e, rfl, rfl, rfl⟩
    · rintro ⟨_, rfl, rfl, he⟩; cases he; exact ⟨rfl, rfl⟩
  | ask q next ih =>
    simp only [bind, play_ask_iff, ih]
    constructor
    · rintro ⟨x, rest, rfl, ⟨e, rfl, h⟩ | ⟨a, es₁, es₂, rfl, h₁, h₂⟩⟩
      · exact .inl ⟨e, rfl, x, rest, rfl, h⟩
      · exact .inr ⟨a, ⟨q, x⟩ :: es₁, es₂, rfl, ⟨x, es₁, rfl, h₁⟩, h₂⟩
    · rintro (⟨e, rfl, x, rest, rfl, h⟩ | ⟨a, _, es₂, rfl, ⟨x, es₁, rfl, h₁⟩, h₂⟩)
      · exact ⟨x, rest, rfl, .inl ⟨e, rfl, h⟩⟩
      · exact ⟨x, es₁ ++ es₂, rfl, .inr ⟨a, es₁, es₂, rfl, h₁, h₂⟩⟩

@[simp] theorem play_ofExcept_iff {x r : Except ε α} {es : List (Exchange Q A)} :
    (ofExcept x : Dialogue Q A ε α).Play es r ↔ es = [] ∧ r = x := by
  cases x <;> simp [ofExcept]

/-- what is worked out from a result asks nothing more -/
theorem play_bind_ofExcept_iff {p : Dialogue Q A ε α} {f : α → Except ε β} {es : List (Exchange Q A)}
    {r : Except ε β} : (p.bind fun x => .ofExcept (f x)).Play es r ↔ ∃ x, p.Play es x ∧ r = x.bind f := by
  simp only [play_bind_iff, play_ofExcept_iff]
  constructor
  · rintro (⟨e, rfl, hfailed⟩ | ⟨x, es, _, rfl, hdone, rfl, rfl⟩)
    · exact ⟨_, hfailed, rfl⟩
    · exact ⟨_, by rwa [List.append_nil], rfl⟩
  · rintro ⟨x, hplay, rfl⟩
    cases x with
    | error e => exact .inl ⟨e, rfl, hplay⟩
    | ok x => exact .inr ⟨x, es, [], (List.append_nil _).symm, hplay, rfl, rfl⟩

/-- carrying failures as results changes no exchange -/
theorem play_attempt_iff {p : Dialogue Q A ε α} {es : List (Exchange Q A)} {r : Except δ (Except ε α)} :
    p.attempt.Play es r ↔ ∃ x, r = .ok x ∧ p.Play es x := by
  induction p generalizing es with
  | done a =>
    simp only [attempt, play_done_iff]
    constructor
    · rintro ⟨rfl, rfl⟩; exact ⟨.ok a, rfl, rfl, rfl⟩
    · rintro ⟨_, rfl, rfl, rfl⟩; exact ⟨rfl, rfl⟩
  | fail e =>
    simp only [attempt, play_done_iff, play_fail_iff]
    constructor
    · rintro ⟨rfl, rfl⟩; exact ⟨.error e, rfl, rfl, rfl⟩
    · rintro ⟨_, rfl, rfl, rfl⟩; exact ⟨rfl, rfl⟩
  | ask q next ih =>
    simp only [attempt, play_ask_iff, ih]
    constructor
    · rintro ⟨x, rest, rfl, y, rfl, h⟩
      exact ⟨y, rfl, x, rest, rfl, h⟩
    · rintro ⟨y, rfl, x, rest, rfl, h⟩
      exact ⟨x, rest, rfl, y, rfl, h⟩

/-- what follows an attempt is played whatever the attempt ends with -/
theorem play_attempt_bind_iff {p : Dialogue Q A ε α} {f : Except ε α → Dialogue Q A δ β} {es : List (Exchange Q A)}
    {r : Except δ β} :
    (p.attempt.bind f).Play es r ↔ ∃ x es₁ es₂, es = es₁ ++ es₂ ∧ p.Play es₁ x ∧ (f x).Play es₂ r := by
  simp only [play_bind_iff, play_attempt_iff]
  constructor
  · rintro (⟨_, _, _, hnever, _⟩ | ⟨x, es₁, es₂, rfl, ⟨_, heq, h₁⟩, h₂⟩)
    · cases hnever
    · cases heq
      exact ⟨x, es₁, es₂, rfl, h₁, h₂⟩
  · rintro ⟨x, es₁, es₂, rfl, h₁, h₂⟩
    exact .inr ⟨x, es₁, es₂, rfl, ⟨x, rfl, h₁⟩, h₂⟩

theorem play_mapFailure_iff {f : ε → δ} {p : Dialogue Q A ε α} {es : List (Exchange Q A)} {r : Except δ α} :
    (p.mapFailure f).Play es r ↔ ∃ x, r = x.mapError f ∧ p.Play es x := by
  induction p generalizing es with
  | done a =>
    simp only [mapFailure, play_done_iff]
    constructor
    · rintro ⟨rfl, rfl⟩; exact ⟨.ok a, rfl, rfl, rfl⟩
    · rintro ⟨_, rfl, rfl, rfl⟩; exact ⟨rfl, rfl⟩
  | fail e =>
    simp only [mapFailure, play_fail_iff]
    constructor
    · rintro ⟨rfl, rfl⟩; exact ⟨.error e, rfl, rfl, rfl⟩
    · rintro ⟨_, rfl, rfl, rfl⟩; exact ⟨rfl, rfl⟩
  | ask q next ih =>
    simp only [mapFailure, play_ask_iff, ih]
    constructor
    · rintro ⟨x, rest, rfl, y, rfl, h⟩
      exact ⟨y, rfl, x, rest, rfl, h⟩
    · rintro ⟨y, rfl, x, rest, rfl, h⟩
      exact ⟨x, rest, rfl, y, rfl, h⟩

/-- a run that succeeds is the same, however failures are reported -/
theorem play_mapFailure_ok_iff {f : ε → δ} {p : Dialogue Q A ε α} {es : List (Exchange Q A)} {a : α} :
    (p.mapFailure f).Play es (.ok a) ↔ p.Play es (.ok a) := by
  rw [play_mapFailure_iff]
  constructor
  · rintro ⟨x, hx, h⟩
    cases x with
    | ok b =>
      cases hx
      exact h
    | error e => cases hx
  · exact fun h => ⟨_, rfl, h⟩

/-! ## What a dialogue can ask -/

/-- every question that stands in the dialogue satisfies `P` -/
def AsksOnly (P : Q → Prop) : Dialogue Q A ε α → Prop
  | .done _ => True
  | .fail _ => True
  | .ask q next => P q ∧ ∀ x, (next x).AsksOnly P

variable {P : Q → Prop}

theorem Play.asked {p : Dialogue Q A ε α} {es : List (Exchange Q A)} {r : Except ε α} (h : p.Play es r)
    (hp : p.AsksOnly P) : ∀ e ∈ es, P e.1 := by
  induction h with
  | done a => simp
  | fail e => simp
  | ask q next x rest ih =>
    intro e he
    rcases List.mem_cons.1 he with rfl | he
    · exact hp.1
    · exact ih (hp.2 x) e he

theorem AsksOnly.mono {P' : Q → Prop} {p : Dialogue Q A ε α} (hp : p.AsksOnly P) (h : ∀ q, P q → P' q) :
    p.AsksOnly P' := by
  induction p with
  | done a => trivial
  | fail e => trivial
  | ask q next ih => exact ⟨h q hp.1, fun x => ih x (hp.2 x)⟩

theorem asksOnly_bind {p : Dialogue Q A ε α} {f : α → Dialogue Q A ε β} (hp : p.AsksOnly P)
    (hf : ∀ a, (f a).AsksOnly P) : (p.bind f).AsksOnly P := by
  induction p with
  | done a => exact hf a
  | fail e => trivial
  | ask q next ih => exact ⟨hp.1, fun x => ih x (hp.2 x)⟩

/-- what follows a dialogue need only be good for the results that the dialogue can have -/
theorem asksOnly_bind_of_play {p : Dialogue Q A ε α} {f : α → Dialogue Q A ε β} (hp : p.AsksOnly P)
    (hf : ∀ a es, p.Play es (.ok a) → (f a).AsksOnly P) : (p.bind f).AsksOnly P := by
  induction p with
  | done a => exact hf a [] (.done a)
  | fail e => trivial
  | ask q next ih => exact ⟨hp.1, fun x => ih x (hp.2 x) fun a es h => hf a (⟨q, x⟩ :: es) (.ask q next x h)⟩

theorem asksOnly_attempt {p : Dialogue Q A ε α} (hp : p.AsksOnly P) :
    (p.attempt : Dialogue Q A δ (Except ε α)).AsksOnly P := by
  induction p with
  | done a => trivial
  | fail e => trivial
  | ask q next ih => exact ⟨hp.1, fun x => ih x (hp.2 x)⟩

theorem asksOnly_mapFailure {f : ε → δ} {p : Dialogue Q A ε α} (hp : p.AsksOnly P) :
    (p.mapFailure f).AsksOnly P := by
  induction p with
  | done a => trivial
  | fail e => trivial
  | ask q next ih => exact ⟨hp.1, fun x => ih x (hp.2 x)⟩

theorem asksOnly_ofExcept (x : Except ε α) : (ofExcept x : Dialogue Q A ε α).AsksOnly P := by
  cases x <;> trivial

/-! ## Questions that are answered by dialogues -/

variable {R : Type} {B : R → Type} {answer : (q : Q) → Dialogue R B ε (A q)}

theorem asksOnly_interpret {P' : R → Prop} {p : Dialogue Q A ε α} (hp : p.AsksOnly P)
    (hanswer : ∀ q, P q → (answer q).AsksOnly P') : (p.interpret answer).AsksOnly P' := by
  induction p with
  | done a => trivial
  | fail e => trivial
  | ask q next ih => exact asksOnly_bind (hanswer q hp.1) fun x => ih x (hp.2 x)

/-- whoever answers, a result is one that the dialogue itself can have -/
theorem play_of_interpret {p : Dialogue Q A ε α} {es : List (Exchange R B)} {a : α}
    (h : (p.interpret answer).Play es (.ok a)) : ∃ es', p.Play es' (.ok a) := by
  induction p generalizing es with
  | done b =>
    cases h
    exact ⟨[], .done a⟩
  | fail e => cases h
  | ask q next ih =>
    obtain ⟨_, hr, _⟩ | ⟨x, _, _, _, _, hrest⟩ := play_bind_iff.1 h
    · cases hr
    · obtain ⟨es', hplay⟩ := ih x hrest
      exact ⟨⟨q, x⟩ :: es', .ask q next x hplay⟩

/-! ## Beginnings of plays -/

/-- a dialogue that is answered alike asks alike, and ends alike -/
theorem Play.unique {p : Dialogue Q A ε α} {es es' all : List (Exchange Q A)} {r r' : Except ε α} (h : p.Play es r)
    (h' : p.Play es' r') (hes : es <+: all) (hes' : es' <+: all) : es = es' ∧ r = r' := by
  induction h generalizing es' all with
  | done a => cases h'; exact ⟨rfl, rfl⟩
  | fail e => cases h'; exact ⟨rfl, rfl⟩
  | ask q next x rest ih =>
    cases h' with
    | ask _ _ x' rest' =>
      obtain ⟨more, rfl⟩ := hes
      rw [List.cons_append, List.cons_prefix_cons] at hes'
      obtain ⟨hhead, htail⟩ := hes'
      cases hhead
      obtain ⟨rfl, rfl⟩ := ih rest' (List.prefix_append _ _) htail
      exact ⟨rfl, rfl⟩

/-- the answers decide how a dialogue ends, and so what is worked out from its end -/
theorem exists_play_iff {p : Dialogue Q A ε α} {es : List (Exchange Q A)} {x : Except ε α} {f : Except ε α → β} {b : β}
    (h : p.Play es x) : (∃ y, p.Play es y ∧ b = f y) ↔ b = f x := by
  constructor
  · rintro ⟨y, hy, rfl⟩
    rw [(h.unique hy List.prefix_rfl List.prefix_rfl).2]
  · rintro rfl
    exact ⟨x, h, rfl⟩

/-- a play of the dialogue may begin with these exchanges -/
def Begins (p : Dialogue Q A ε α) (es : List (Exchange Q A)) : Prop := ∃ more r, p.Play (es ++ more) r

theorem Play.begins {p : Dialogue Q A ε α} {es : List (Exchange Q A)} {r : Except ε α} (h : p.Play es r) :
    p.Begins es := ⟨[], r, by rwa [List.append_nil]⟩

theorem Begins.asked {p : Dialogue Q A ε α} {es : List (Exchange Q A)} (h : p.Begins es) (hp : p.AsksOnly P) :
    ∀ e ∈ es, P e.1 := by
  obtain ⟨more, r, hplay⟩ := h
  exact fun e he => hplay.asked hp e (List.mem_append_left _ he)

end Dialogue

end Fleet
