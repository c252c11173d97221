/-
The routing table of a message bus: for each role, what it sends and receives.
-/
import Fleet.Json.Value
import Fleet.Project
import Fleet.Text.Blank

namespace Fleet

structure Route where
  /-- the role's own name for messages, in front of theirs -/
  namespaceName : Option String
  receives : List String
  role : String
  sends : List String
  deriving DecidableEq

namespace Route

/-- the texts of a list, each once, in order of first occurrence; `seen` is in reverse -/
def distinctFrom (seen : List String) : List String → List String
  | [] => seen.reverse
  | s :: rest => distinctFrom (if seen.contains s then seen else s :: seen) rest

def distinct (l : List String) : List String := distinctFrom [] l

/-- the first word of the first message's internal name -/
def namespaceOf (s : Source) : Option String :=
  s.messageNames.head?.bind fun m => (Text.words m.internalName).head?

def toJson (r : Route) : Json :=
  .record <|
    (r.namespaceName.map fun n => ("namespace", Json.text n)).toList ++
    [("receives", .texts r.receives), ("role", .text r.role), ("sends", .texts r.sends)]

end Route

namespace Project

/-- the route of one role -/
def route (p : Project) (role : String) (s : Source) : Route :=
  let messages := ((p.services.get? role).map Service.messages).getD {}
  { namespaceName := Route.namespaceOf s
    receives := Route.distinct messages.receives
    role
    sends := Route.distinct messages.sends }

def routes (p : Project) : List Route :=
  p.application.services.entries.map fun e => p.route e.1 e.2

/-- the routes as compact JSON -/
def routingTable (p : Project) : String := (Json.array (p.routes.map Route.toJson)).compact

end Project

end Fleet
