import KubeCompose.DotEnv
import KubeCompose.Yaml.Describe

/-!
# Services of a project

What a service says about its image, its build, its environment, its ports, its volumes and its
replicas, in each of the forms in which it can be written.
-/

namespace KubeCompose.Compose

open Text (cutAt? splitOn startsWith)

/-- Where an image is built from. -/
structure Build where
  context : String
  dockerfile : String
  deriving DecidableEq, Repr

/-- An item of an environment in list form. -/
inductive EnvironmentItem where
  | assignment (text : String)
  | mapping (entries : List (String × Yaml))
  deriving Repr

/-- The environment of a service as written. -/
inductive Environment where
  | map (entries : List (String × Yaml))
  | list (items : List EnvironmentItem)
  deriving Repr

namespace EnvironmentItem

/-- The pairs of an item; a text without `=` has none. -/
def pairs : EnvironmentItem → List (String × String)
  | .assignment text =>
    match cutAt? '=' text.toList with
    | some (key, value) => [(String.ofList key, String.ofList value)]
    | none => []
  | .mapping entries => entries.map fun (k, v) => (k, v.plainText)

end EnvironmentItem

namespace Environment

/-- The pairs of an environment in order; a key may occur more than once. -/
def pairs : Environment → List (String × String)
  | .map entries => entries.map fun (k, v) => (k, v.plainText)
  | .list items => items.flatMap (·.pairs)

/-- The value of each key: references and container names are replaced in it, and of several values
the last one counts, in the place of the first. -/
def resolve (env : Environment) (vars : DotEnv) : OrderedMap String String :=
  OrderedMap.ofList (env.pairs.map fun (k, raw) => (k, Alias.expand (vars.substitute raw)))

end Environment

/-- A port as written. -/
inductive Port where
  | number (n : Int)
  | short (text : String)
  | long (target published : Option Yaml) (protocol : Option String)
  deriving Repr

/-- A volume as written. -/
inductive Volume where
  | short (text : String)
  | long (kind source target : Option String)
  deriving DecidableEq, Repr

/-- Whether the source of a volume is a path of the host. -/
def isHostPath (source : List Char) : Bool :=
  startsWith source "./" || startsWith source "/" || startsWith source "../" ||
    startsWith source "~/" || source == ['.']

namespace Volume

/-- Whether a volume has a name and is no path of the host. -/
def isNamed : Volume → Bool
  | .short text => !isHostPath text.toList
  | .long (some kind) _ _ => kind == "volume"
  | .long none source _ => source.any fun s => !isHostPath s.toList

/-- The path of a volume in its container, when one is given. -/
def containerPath? : Volume → Option String
  | .short text =>
    match splitOn ':' text.toList with
    | _ :: path :: _ => if path.isEmpty then none else some (String.ofList path)
    | _ => none
  | .long _ _ target => target

end Volume

/-- A service. A deploy section counts even when it asks for no replicas. -/
structure Service where
  name : String
  image : Option String
  build : Option Build
  environment : Option Environment
  ports : List Port
  volumes : List Volume
  deploy : Option (Option Int)
  deriving Repr

namespace Service

/-- A service of which nothing is said. -/
def empty (name : String) : Service := ⟨name, none, none, none, [], [], none⟩

/-- The image in lower case, empty when there is none. -/
def imageLower (s : Service) : String := Text.lowercase (s.image.getD "")

/-- How many replicas a service asks for. -/
def replicas (s : Service) : Option Int := s.deploy.join

/-- The pairs of the environment in order. -/
def environmentPairs (s : Service) : List (String × String) :=
  (s.environment.map (·.pairs)).getD []

/-- The resolved environment. -/
def resolvedEnvironment (s : Service) (vars : DotEnv) : OrderedMap String String :=
  (s.environment.map (·.resolve vars)).getD []

end Service

end KubeCompose.Compose
