import KubeCompose.Compose.Service

/-!
# Port mappings

A port of a service is understood as a container port and perhaps a published one. A short text is
`[ip:][published:]target[/protocol]`, and each port may be the start of a range. What cannot be
understood stands for the container port 8080.
-/

namespace KubeCompose

open Number (readDigits? twoTo)
open Text (trim splitOn before)

/-- A port of a container, and the port under which it is published, if any. -/
structure PortMapping where
  published : Option Nat
  target : Nat
  fallback : Bool
  deriving DecidableEq, Repr

namespace PortMapping

/-- The container port of a port that cannot be understood. -/
def fallbackPort : Nat := 8080

/-- What a port that cannot be understood stands for. -/
def unknown : PortMapping := ⟨none, fallbackPort, true⟩

/-- Whether the port was understood. -/
def isDeclared (m : PortMapping) : Bool := !m.fallback

/-- The port of the service in front of the container. -/
def servicePort (m : PortMapping) : Nat := m.published.getD m.target

/-- A port number, if it is one. -/
def inRange? (n : Nat) : Option Nat := if 0 < n ∧ n < twoTo 16 then some n else none

/-- Reads a number with an optional plus sign. -/
def readNumber? (cs : List Char) : Option Nat :=
  match cs with
  | '+' :: r => readDigits? 10 r
  | r => readDigits? 10 r

/-- Reads a port number, or the start of a range. -/
def readPort? (cs : List Char) : Option Nat := (readNumber? (before '-' (trim cs))).bind inRange?

/-- Reads a short text. -/
def readShort? (cs : List Char) : Option PortMapping :=
  match splitOn ':' (before '/' (trim cs)) with
  | [target] => (readPort? target).map fun t => ⟨none, t, false⟩
  | [published, target] => (readPort? target).map fun t => ⟨readPort? published, t, false⟩
  | [_, published, target] => (readPort? target).map fun t => ⟨readPort? published, t, false⟩
  | _ => none

/-- Reads a port of the long form; references in it are replaced first. -/
def readValue? (vars : DotEnv) (v : Yaml) : Option Nat :=
  readPort? (vars.substitute v.plainText).toList

/-- What a port stands for, if it can be understood. -/
def ofPort? (vars : DotEnv) : Compose.Port → Option PortMapping
  | .number n => (inRange? n.toNat).map fun t => ⟨none, t, false⟩
  | .short text => readShort? (vars.substitute text).toList
  | .long target published _ => do
    let t ← readValue? vars (← target)
    return ⟨published.bind (readValue? vars), t, false⟩

/-- What a port stands for. -/
def ofPort (vars : DotEnv) (p : Compose.Port) : PortMapping := (ofPort? vars p).getD unknown

end PortMapping

/-- The ports of a service. -/
def Compose.Service.portMappings (s : Compose.Service) (vars : DotEnv) : List PortMapping :=
  s.ports.map (PortMapping.ofPort vars)

end KubeCompose
