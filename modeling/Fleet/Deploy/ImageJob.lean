/-
The images that a deploy publishes: one for each service, then one for each dependency that runs in a
container.
-/
import Fleet.Collaborator
import Fleet.Text.Lines

namespace Fleet

inductive ImageOrigin where
  | build (context dockerfile localTag : String)
  | pull (image : String)
  deriving DecidableEq, Repr

structure ImageJob where
  name : String
  version : String
  origin : ImageOrigin
  deriving DecidableEq, Repr

namespace ImageJob

def repository (j : ImageJob) (appName : String) : String := s!"{appName}-{j.name}"

/-- the reference under which the image is published -/
def target (j : ImageJob) (registry appName : String) : String :=
  s!"{registry}/{j.repository appName}:{j.version}"

/-- what the image is called before it is published -/
def localReference (j : ImageJob) : String :=
  match j.origin with
  | .build _ _ localTag => localTag
  | .pull image => image

/-- what stands behind the last colon -/
def afterLastColon? (s : String) : Option String :=
  (Text.cut? ':' s.toList.reverse).map fun (tag, _) => String.ofList tag.reverse

/-- the tag of an image reference -/
def tagOf (image : String) : String := (afterLastColon? image).getD "latest"

end ImageJob

namespace Project

def serviceJob (p : Project) (role : String) (s : Source) : Except Fault ImageJob :=
  match s.origin role with
  | .error f => .error f
  | .ok (.location _) =>
    .ok ⟨role, p.application.version,
      .build ((s.buildContext p.dir).getD p.dir) Mode.deploy.dockerfile s!"{p.name}-{role}"⟩
  | .ok (.image image) => .ok ⟨role, ImageJob.tagOf image, .pull image⟩

def serviceJobs (p : Project) (l : List (String × Source)) : Except Fault (List ImageJob) :=
  l.mapM fun e => p.serviceJob e.1 e.2

def dependencyJob? (p : Project) (d : Dependency) : Option ImageJob :=
  ((d.container? p).bind Container.image).map fun image => ⟨d.name, d.version, .pull image⟩

def imageJobs (p : Project) : Except Fault (List ImageJob) :=
  (p.serviceJobs p.application.services.entries).map fun jobs =>
    jobs ++ p.cloudDependencies.filterMap p.dependencyJob?

end Project

end Fleet
