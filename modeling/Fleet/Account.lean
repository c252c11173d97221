/-
The cloud account that an application is deployed to, and the names of what it holds there.
-/
import Fleet.Project

namespace Fleet

structure Account where
  profile : String
  region : String
  id : String
  appName : String
  deriving DecidableEq

namespace Account

/-- the account of an application, entered through a profile -/
def ofProject (p : Project) (profile : String) : Account :=
  ⟨profile, p.application.site.region, p.application.site.accountId, p.name⟩

def stateBucket (a : Account) : String := s!"{a.id}-{a.appName}-terraform"

def registry (a : Account) : String := s!"{a.id}.dkr.ecr.{a.region}.amazonaws.com"

def secretId (a : Account) : String := s!"{a.appName}-secrets"

/-- the table that locks the infrastructure's state -/
def lockTable : String := "TerraformLocks"

end Account

end Fleet
