/-
Settings of the tool itself: the programs it calls, and where it keeps its files.
-/
import Fleet.Deploy.Context

namespace Fleet

structure Settings where
  dockerProgram : String := "docker"
  terraformProgram : String := "terraform"
  awsProgram : String := "aws"
  profile : String := "default"
  /-- how many images are published at once -/
  concurrency : Nat := Deploy.defaultConcurrency
  /-- the application's directory for generated compose files -/
  artifactDir : String := ".stratus"
  /-- the application's directory for infrastructure files -/
  infraDir : String := "terraform"
  deriving DecidableEq, Repr

namespace Settings

def artifactPath (s : Settings) (appDir : String) : String := Path.join appDir s.artifactDir

def infraPath (s : Settings) (appDir : String) : String := Path.join appDir s.infraDir

/-- where the compose file of a mode goes -/
def composePath (s : Settings) (appDir : String) (m : Mode) : String :=
  Path.join (s.artifactPath appDir) m.label

end Settings

end Fleet
