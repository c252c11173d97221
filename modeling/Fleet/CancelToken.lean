/-
Cancel tokens.

A token watches a list of flags, its own last. Cloning shares the list, a child adds a flag of its own, and
cancelling raises the token's own flag: it is seen by the token, its clones and everything below them.
-/

namespace Fleet

/-- the flags a token watches -/
structure CancelToken where
  inherited : List Nat
  own : Nat
  deriving DecidableEq, Repr

namespace CancelToken

/-- flags by number -/
abbrev Flags := List Bool

/-- a token that depends on no other, on a new flag -/
def new (flags : Flags) : CancelToken × Flags := (⟨[], flags.length⟩, flags ++ [false])

/-- a token that is cancelled with its parent, on a new flag -/
def child (t : CancelToken) (flags : Flags) : CancelToken × Flags :=
  (⟨t.inherited ++ [t.own], flags.length⟩, flags ++ [false])

def cancel (t : CancelToken) (flags : Flags) : Flags := flags.set t.own true

def isCancelled (t : CancelToken) (flags : Flags) : Bool :=
  (t.inherited ++ [t.own]).any fun n => flags.getD n false

/-- an operation on tokens, which are numbered in order of creation -/
inductive Operation where
  | new
  | child (of : Nat)
  | clone (of : Nat)
  | cancel (of : Nat)
  deriving DecidableEq, Repr

/-- tokens and their flags -/
structure Forest where
  tokens : List CancelToken := []
  flags : Flags := []

namespace Forest

def add (f : Forest) (t : CancelToken × Flags) : Forest := ⟨f.tokens ++ [t.1], t.2⟩

/-- an operation on a token that does not exist changes nothing -/
def perform (f : Forest) : Operation → Forest
  | .new => f.add (CancelToken.new f.flags)
  | .child n => match f.tokens[n]? with
    | some t => f.add (t.child f.flags)
    | none => f
  | .clone n => match f.tokens[n]? with
    | some t => f.add (t, f.flags)
    | none => f
  | .cancel n => match f.tokens[n]? with
    | some t => { f with flags := t.cancel f.flags }
    | none => f

/-- whether each token is cancelled -/
def cancelled (f : Forest) : List Bool := f.tokens.map fun t => t.isCancelled f.flags

/-- what each token shows after each operation -/
def trace (f : Forest) : List Operation → List (List Bool)
  | [] => []
  | op :: rest => (f.perform op).cancelled :: trace (f.perform op) rest

end Forest

end CancelToken

end Fleet
