import KubeCompose.Database
import KubeCompose.Yaml.Value

/-!
# Health probes

A container is asked for its health by a command, when its image is one of the databases that have
one, and by opening a port otherwise.
-/

namespace KubeCompose.Probe

open Yaml (fields)

/-- The command that asks for health in an image whose name holds a word, the first word that fits.
-/
def commands : List (String × List String) :=
  [("mysql", ["mysqladmin", "ping", "-h", "localhost"]),
   ("mongo", ["mongosh", "--eval", "db.adminCommand(\"ping\")"]),
   ("redis", ["redis-cli", "ping"])]

/-- The command for an image. -/
def command? (image : String) : Option (List String) :=
  let cs := (Text.lowercase image).toList
  (commands.find? fun (word, _) => Text.containsText word.toList cs).map (·.2)

/-- The port that is opened when none is declared. -/
def defaultPort : Nat := 80

/-- When a container is asked first, and how often then. -/
def times : List (String × Yaml) := [("initialDelaySeconds", .int 30), ("periodSeconds", .int 10)]

/-- A probe that asks by a command. -/
def byCommand (command : List String) : Yaml :=
  fields
    ([("exec", fields [("command", .seq (command.map .str))]), ("failureThreshold", .int 3)] ++
      times ++ [("timeoutSeconds", .int 5)])

/-- A probe that opens a port. -/
def byPort (port : Nat) : Yaml :=
  fields
    ([("failureThreshold", .int 3)] ++ times ++
      [("tcpSocket", fields [("port", .int port)]), ("timeoutSeconds", .int 5)])

/-- The probe for an image and the first port of its container. -/
def ofImage (image : String) (port : Option Nat) : Yaml :=
  match command? image with
  | some command => byCommand command
  | none => byPort (port.getD defaultPort)

end KubeCompose.Probe
