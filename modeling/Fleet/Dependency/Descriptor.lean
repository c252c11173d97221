/-
Dependencies as they are declared: a name, a version and settings for the container, for the services
that use it, and for a managed database.
-/
import Fleet.SortedMap

namespace Fleet

/-- variables of an environment -/
abbrev Variables := SortedMap String

/-- the variables through which a service learns about its managed database -/
structure DatabaseVariables where
  dbName : Option String := none
  username : Option String := none
  password : Option String := none
  deriving DecidableEq

/-- settings of a managed database -/
structure DatabaseSettings where
  allocatedStorage : Option String := none
  instanceClass : Option String := none
  storageType : Option String := none
  dbName : Option String := none
  username : Option String := none
  passwordSecret : Option String := none
  consumerNames : DatabaseVariables := {}
  deriving DecidableEq

structure DependencySettings where
  ports : List String := []
  /-- paths inside the container whose contents outlive it -/
  persist : List String := []
  containerEnv : Variables := .empty
  consumerEnv : Variables := .empty
  database : Option DatabaseSettings := none
  deriving DecidableEq

structure Descriptor where
  name : String := ""
  version : String := ""
  settings : DependencySettings := {}
  deriving DecidableEq

namespace Descriptor

def containerName (d : Descriptor) : String := d.name ++ d.version

def display (d : Descriptor) : String := d.name ++ ":" ++ d.version

end Descriptor

end Fleet
