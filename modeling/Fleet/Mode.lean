/-
What a compilation is for: where it runs, which tier of settings it uses, and whether local sources are
mounted into the containers.
-/

namespace Fleet

/-- dependencies are declared once for local runs and once for deploys -/
inductive Lifecycle where
  | onMachine
  | inCloud
  deriving DecidableEq, Repr

/-- the tiers of service settings -/
inductive Tier where
  | development | test | production
  deriving DecidableEq, Repr

structure Mode where
  lifecycle : Lifecycle
  tier : Tier
  mount : Bool
  deriving DecidableEq, Repr

namespace Mode

def localDevelopment : Mode := ⟨.onMachine, .development, true⟩
def localTest : Mode := ⟨.onMachine, .test, true⟩
def localProduction : Mode := ⟨.onMachine, .production, false⟩
def deploy : Mode := ⟨.inCloud, .production, false⟩

def isLocal (m : Mode) : Bool := m.lifecycle = .onMachine

/-- the build file of a service in this mode -/
def dockerfile (m : Mode) : String :=
  match m.tier with
  | .production => "Dockerfile.prod"
  | .development | .test => "Dockerfile.dev"

def label (m : Mode) : String :=
  match m.lifecycle, m.tier with
  | .inCloud, _ => "deploy-prod"
  | .onMachine, .development => "local-dev"
  | .onMachine, .test => "local-test"
  | .onMachine, .production => "local-prod"

end Mode

end Fleet
