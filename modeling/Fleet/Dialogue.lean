/-
A program seen as a dialogue with its surroundings: it finishes, fails, or asks a question and goes on
with the answer.

Every effect of the library is a question of some vocabulary `Q`, with answers of type `A q`. What a
program does is therefore data, and a statement about all surroundings quantifies over the function that
answers. `run` plays a dialogue against surroundings with a state; `interpret` replaces each question by a
dialogue in another vocabulary.
-/

namespace Fleet

inductive Dialogue (Q : Type) (A : Q → Type) (ε α : Type) : Type where
  | done (a : α)
  | fail (e : ε)
  | ask (q : Q) (next : A q → Dialogue Q A ε α)

namespace Dialogue

variable {Q : Type} {A : Q → Type} {ε δ α β σ : Type}

/-- go on with the result; a failure ends the dialogue -/
def bind : Dialogue Q A ε α → (α → Dialogue Q A ε β) → Dialogue Q A ε β
  | .done a, f => f a
  | .fail e, _ => .fail e
  | .ask q next, f => .ask q fun x => (next x).bind f

instance : Monad (Dialogue Q A ε) where
  pure := .done
  bind := bind

/-- carry a failure as a result -/
def attempt : Dialogue Q A ε α → Dialogue Q A δ (Except ε α)
  | .done a => .done (.ok a)
  | .fail e => .done (.error e)
  | .ask q next => .ask q fun x => (next x).attempt

def mapFailure (f : ε → δ) : Dialogue Q A ε α → Dialogue Q A δ α
  | .done a => .done a
  | .fail e => .fail (f e)
  | .ask q next => .ask q fun x => (next x).mapFailure f

def ofExcept : Except ε α → Dialogue Q A ε α
  | .ok a => .done a
  | .error e => .fail e

/-- ask one question and finish with its answer -/
def request (q : Q) : Dialogue Q A ε (A q) := .ask q .done

/-- answer every question of one vocabulary by a dialogue in another -/
def interpret {R : Type} {B : R → Type} (answer : (q : Q) → Dialogue R B ε (A q)) :
    Dialogue Q A ε α → Dialogue R B ε α
  | .done a => .done a
  | .fail e => .fail e
  | .ask q next => (answer q).bind fun x => (next x).interpret answer

/-- play the dialogue against surroundings that answer from a state -/
def run (answer : (q : Q) → σ → A q × σ) : Dialogue Q A ε α → σ → Except ε α × σ
  | .done a, s => (.ok a, s)
  | .fail e, s => (.error e, s)
  | .ask q next, s => (next (answer q s).1).run answer (answer q s).2

/-- play the dialogue against surroundings in a monad -/
def runIn {M : Type → Type} [Monad M] (answer : (q : Q) → M (A q)) :
    Dialogue Q A ε α → M (Except ε α)
  | .done a => pure (.ok a)
  | .fail e => pure (.error e)
  | .ask q next => do
    let x ← answer q
    (next x).runIn answer

@[simp] theorem bind_done (a : α) (f : α → Dialogue Q A ε β) : (done a).bind f = f a := rfl

@[simp] theorem bind_fail (e : ε) (f : α → Dialogue Q A ε β) : (fail e).bind f = fail e := rfl

/-- what a bound dialogue does is what its parts do, one after the other -/
theorem run_bind (answer : (q : Q) → σ → A q × σ) (p : Dialogue Q A ε α)
    (f : α → Dialogue Q A ε β) (s : σ) :
    (p.bind f).run answer s =
      match p.run answer s with
      | (.ok a, t) => (f a).run answer t
      | (.error e, t) => (.error e, t) := by
  induction p generalizing s with
  | done a => rfl
  | fail e => rfl
  | ask q next ih => simp only [bind, run]; exact ih _ _

end Dialogue

end Fleet
