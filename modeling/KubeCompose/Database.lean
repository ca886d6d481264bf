import KubeCompose.PortMapping
import KubeCompose.Text.Fields
import KubeCompose.Text.Lowercase

/-!
# Databases

The databases that are known, each with its well-known port, the place of its data, the settings
that its container needs and the command that asks for its health. A database is known by its image.
A service may be one, and may need an ingress for its ports and a claim for its volumes besides.
-/

namespace KubeCompose

open Text (lowercase containsText)

/-- A known database. -/
inductive Database where
  | mysql
  | mongo
  | postgres
  | redis
  deriving DecidableEq, Repr

/-- The value of a setting of a database that the project does not give. -/
inductive SettingDefault where
  | literal (value : String)
  | databaseName
  deriving DecidableEq, Repr

namespace Database

/-- All databases, in the order in which an image is compared with their names. -/
def all : List Database := [.mysql, .mongo, .postgres, .redis]

/-- The name of a database, which is part of the name of its images. -/
def name : Database → String
  | .mysql => "mysql"
  | .mongo => "mongo"
  | .postgres => "postgres"
  | .redis => "redis"

/-- The port of a database. -/
def port : Database → Nat
  | .mysql => 3306
  | .mongo => 27017
  | .postgres => 5432
  | .redis => 6379

/-- Where a database keeps its data. -/
def mountPath : Database → String
  | .mysql => "/var/lib/mysql"
  | .mongo => "/data/db"
  | .postgres => "/var/lib/postgresql/data"
  | .redis => "/data"

/-- The settings of a database with a fixed set of them; none for one that takes its environment as
it is. -/
def settings? : Database → Option (List (String × SettingDefault))
  | .mysql =>
    some
      [("MYSQL_ROOT_HOST", .literal "%"), ("MYSQL_ROOT_PASSWORD", .literal "pass"),
       ("MYSQL_DATABASE", .databaseName), ("MYSQL_USER", .literal "root"),
       ("MYSQL_PASSWORD", .literal "pass")]
  | .mongo =>
    some
      [("MONGO_INITDB_ROOT_USERNAME", .literal "root"),
       ("MONGO_INITDB_ROOT_PASSWORD", .literal "pass")]
  | .postgres => none
  | .redis => none

/-- The database of an image: the first whose name is part of it, whatever the case. -/
def ofImage? (image : String) : Option Database :=
  let cs := (lowercase image).toList
  all.find? fun d => containsText d.name.toList cs

/-- The database of a name. -/
def ofName? (name : String) : Option Database := all.find? fun d => d.name == name

end Database

/-! ### What a service needs -/

/-- What a service needs: it may be a database, be reached from outside, and keep data. -/
structure Classification where
  database : Option Database
  needsIngress : Bool
  needsClaim : Bool
  deriving DecidableEq, Repr

namespace Classification

/-- The ports of the web. -/
def webPorts : List Nat := [80, 443, 8080, 8443]

/-- What a service with the given ports needs: an ingress when one of its declared ports is one of
the web, and a claim when it has a named volume. -/
def ofService (s : Compose.Service) (ports : List PortMapping) : Classification :=
  { database := Database.ofImage? s.imageLower
    needsIngress := ports.any fun p => p.isDeclared && webPorts.contains p.servicePort
    needsClaim := s.volumes.any (·.isNamed) }

end Classification

end KubeCompose
