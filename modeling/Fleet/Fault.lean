/-
What can go wrong, by cause, and the one wording of each cause.

`Fault.message` is the text shown to a person; nothing else in the library builds an error text.
-/

namespace Fleet

/-- programs that are called outside this one -/
inductive Tool where
  | docker | aws | terraform | terminal
  deriving DecidableEq, Repr

def Tool.name : Tool → String
  | .docker => "docker"
  | .aws => "aws"
  | .terraform => "terraform"
  | .terminal => "terminal"

/-- why the operating system refused an access to a file -/
inductive FileCause where
  | notFound
  | notDirectory
  | isDirectory
  | alreadyExists
  | notEmpty
  | busy
  | invalidArgument
  | nameTooLong
  /-- a path with a NUL in it -/
  | nulInPath
  /-- a NUL in what a process is started with -/
  | nulInCommand
  | notText
  | denied
  deriving DecidableEq, Repr

def FileCause.message : FileCause → String
  | .notFound => "No such file or directory (os error 2)"
  | .notDirectory => "Not a directory (os error 20)"
  | .isDirectory => "Is a directory (os error 21)"
  | .alreadyExists => "File exists (os error 17)"
  | .notEmpty => "Directory not empty (os error 39)"
  | .busy => "Device or resource busy (os error 16)"
  | .invalidArgument => "Invalid argument (os error 22)"
  | .nameTooLong => "File name too long (os error 36)"
  | .nulInPath => "file name contained an unexpected NUL byte"
  | .nulInCommand => "nul byte found in provided data"
  | .notText => "stream did not contain valid UTF-8"
  | .denied => "Permission denied (os error 13)"

/-- whose configuration is at fault -/
inductive Subject where
  | application
  | service (role : String)
  | dependency (name version : String)
  deriving DecidableEq, Repr

def Subject.text : Subject → String
  | .application => "application.yml"
  | .service role => s!"service {role}"
  | .dependency name version => s!"production dependency {name}:{version}"

/-- what is wrong with a configuration field -/
inductive Problem where
  | missing
  | badApplicationName (name : String)
  | badRole
  | twoOrigins
  | noOrigin
  | badDatabaseName
  deriving DecidableEq, Repr

def Problem.text : Problem → String
  | .missing => "missing required field"
  | .badApplicationName name =>
    s!"'{name}' is invalid: only lowercase alphanumerics separated by single hyphens are allowed in"
  | .badRole => "only alphanumerics separated by single hyphens are allowed in service key"
  | .twoOrigins => "location and docker-image are mutually exclusive in"
  | .noOrigin => "no location or docker-image listed for"
  | .badDatabaseName => "only alphanumeric characters and hyphens allowed in"

/-- why something that was asked for cannot be had -/
inductive Unresolved where
  | noSuchService
  | undefinedDependency (dependent : String)
  | cycle
  | noImage
  | notGenerated
  | notReady
  | reported (text : String)
  deriving DecidableEq, Repr

def Unresolved.text : Unresolved → String
  | .noSuchService => "no such service"
  | .undefinedDependency dependent => s!"'{dependent}' depends on an undefined component"
  | .cycle => "cyclic dependency detected in component graph"
  | .noImage => "container has no image to run"
  | .notGenerated => "not generated yet"
  | .notReady => "not available yet at this stage of the deploy"
  | .reported text => text

inductive Fault where
  | file (path : String) (cause : FileCause)
  | yaml (path : String)
  | json
  | invalid (subject : Subject) (problem : Problem) (field : String)
  | unresolved (name : String) (cause : Unresolved)
  | tool (which : Tool) (text : String)
  | secretMissing (key : String)
  | driftDeclined (summary : String)
  | cancelled
  deriving DecidableEq, Repr

def Fault.message : Fault → String
  | .file path cause => s!"I/O error at {path}: {cause.message}"
  | .yaml path => s!"invalid YAML in {path}"
  | .json => "serialization error"
  | .invalid subject problem field => s!"{subject.text} has issues: {problem.text} '{field}'"
  | .unresolved name cause => s!"cannot resolve dependency {name}: {cause.text}"
  | .tool which text => s!"{which.name} failed: {text}"
  | .secretMissing key => s!"secret '{key}' is declared but missing from the secret store"
  | .driftDeclined summary => s!"infrastructure drift not accepted: {summary}"
  | .cancelled => "operation cancelled"

def Fault.missing (subject : Subject) (field : String) : Fault := .invalid subject .missing field

end Fleet
