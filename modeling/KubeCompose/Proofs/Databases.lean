import KubeCompose.Proofs.Links

/-!
# Databases and their probes

A database is known by its image, and the probe of its stateful set is chosen by the image once
more, from a table of its own. That table has no row for postgres, so a database whose image also
has the name of redis is asked for its health as redis is.
-/

namespace KubeCompose

open Compose (Service)
open OrderedMap (find?_append find?_cons)
open Text (containsText lowercase)
open Yaml (find?_listField get?_fields)

/-- An image with the name of a database in it, whatever the case. -/
abbrev Database.NamedIn (d : Database) (image : String) : Prop :=
  containsText d.name.toList (lowercase image).toList = true

/-- The probe that goes with a database. -/
def Database.probe : Database → Yaml
  | .mysql => Probe.byCommand ["mysqladmin", "ping", "-h", "localhost"]
  | .mongo => Probe.byCommand ["mongosh", "--eval", "db.adminCommand(\"ping\")"]
  | .postgres => Probe.byPort 5432
  | .redis => Probe.byCommand ["redis-cli", "ping"]

section Image

variable {image : String} {d : Database}

theorem find?_cons_eq_ite {α : Type} (p : α → Bool) (a : α) (l : List α) :
    (a :: l).find? p = if p a then some a else l.find? p := by
  rw [List.find?_cons]
  split <;> simp [*]

theorem Database.ofImage?_eq (image : String) :
    ofImage? image =
      if mysql.NamedIn image then some .mysql
      else if mongo.NamedIn image then some .mongo
      else if postgres.NamedIn image then some .postgres
      else if redis.NamedIn image then some .redis
      else none := by
  simp only [ofImage?, all, find?_cons_eq_ite]
  rfl

theorem Probe.command?_eq (image : String) :
    command? image =
      if Database.mysql.NamedIn image then some ["mysqladmin", "ping", "-h", "localhost"]
      else if Database.mongo.NamedIn image then
        some ["mongosh", "--eval", "db.adminCommand(\"ping\")"]
      else if Database.redis.NamedIn image then some ["redis-cli", "ping"]
      else none := by
  simp only [command?, commands, find?_cons_eq_ite, apply_ite (Option.map _)]
  rfl

/-- The probe of an image is that of the first database it names, postgres apart. -/
theorem Probe.ofImage_eq (image : String) (port : Option Nat) :
    ofImage image port =
      if Database.mysql.NamedIn image then Database.mysql.probe
      else if Database.mongo.NamedIn image then Database.mongo.probe
      else if Database.redis.NamedIn image then Database.redis.probe
      else byPort (port.getD defaultPort) := by
  rw [ofImage, command?_eq]
  split_ifs <;> rfl

theorem Probe.byCommand_ne_byPort (command : List String) (port : Nat) :
    byCommand command ≠ byPort port := by
  simp [byCommand, byPort, times, Yaml.fields]

/-- The probe of a database goes with it, unless it is postgres and its image names redis too. -/
theorem Probe.eq_probe_iff_of_ofImage? (h : Database.ofImage? image = some d) :
    ofImage image (some d.port) = d.probe ↔
      ¬ (d = .postgres ∧ Database.redis.NamedIn image) := by
  rw [Database.ofImage?_eq] at h
  rw [Probe.ofImage_eq]
  by_cases hMysql : Database.mysql.NamedIn image
  · rw [if_pos hMysql] at h ⊢
    obtain rfl := Option.some.inj h
    simp
  rw [if_neg hMysql] at h ⊢
  by_cases hMongo : Database.mongo.NamedIn image
  · rw [if_pos hMongo] at h ⊢
    obtain rfl := Option.some.inj h
    simp
  rw [if_neg hMongo] at h ⊢
  by_cases hPostgres : Database.postgres.NamedIn image
  · rw [if_pos hPostgres] at h
    obtain rfl := Option.some.inj h
    by_cases hRedis : Database.redis.NamedIn image
    · rw [if_pos hRedis]
      exact iff_of_false (byCommand_ne_byPort _ _) fun hNot => hNot ⟨rfl, hRedis⟩
    · rw [if_neg hRedis]
      exact iff_of_true rfl fun hBoth => hRedis hBoth.2
  · rw [if_neg hPostgres] at h
    by_cases hRedis : Database.redis.NamedIn image
    · rw [if_pos hRedis] at h ⊢
      obtain rfl := Option.some.inj h
      simp
    · rw [if_neg hRedis] at h
      cases h

end Image

/-! ### The probes of a stateful set -/

/-- The probes by which the containers of a workload are asked for their health, when they run and
when they have started. -/
def Manifest.probes (m : Manifest) : List (Option Yaml) :=
  m.containers.flatMap fun c => [c.get? "livenessProbe", c.get? "readinessProbe"]

theorem Workload.probes_template {w : Workload} {kind : ManifestKind} {stem : String}
    {document probe : Yaml} {env mounts volumes : List Yaml} {ports : List Nat}
    (h : document.at? ["spec", "template"] =
      some (w.podTemplate (w.container env ports probe mounts) volumes)) :
    Manifest.probes ⟨kind, stem, document⟩ = [some probe, some probe] := by
  rw [Manifest.probes, containers_template h, List.flatMap_singleton]
  simp [container, get?_fields, find?_append, find?_cons, find?_listField]

/-- A database runs in a stateful set whose one container has the probe of its image and port. -/
theorem probes_pods_of_ofImage? (settings : Settings) (options : ConvertOptions) (vars : DotEnv)
    (name space : String) {s : Service} {d : Database}
    (h : Database.ofImage? s.imageLower = some d) :
    (workloadOf settings options vars name space s).pods.kind = .statefulSet ∧
      (workloadOf settings options vars name space s).pods.probes =
        [some (Probe.ofImage s.imageLower (some d.port)),
         some (Probe.ofImage s.imageLower (some d.port))] := by
  have hDatabase : (workloadOf settings options vars name space s).classification.database =
      some d := (coherent_workloadOf settings options vars name space s).database.trans h
  rw [Workload.pods, hDatabase]
  exact ⟨rfl, Workload.probes_template (Workload.template_statefulSet _ d _)⟩

/-- The probe of an image of a database is the one that goes with the database, unless this is
postgres and the image names redis too. Each service with such an image gets a stateful set that is
asked for its health by the probe of the image. -/
theorem Probe.ofImage_eq_probe_iff {image : String} {d : Database}
    (h : Database.ofImage? image = some d) :
    (ofImage image (some d.port) = d.probe ↔
        ¬ (d = .postgres ∧ Database.redis.NamedIn image)) ∧
      ∀ settings options vars name space (s : Service), s.imageLower = image →
        ∃ pods, (workloadOf settings options vars name space s).manifests.filter
            (·.kind.holdsPods) = [pods] ∧
          pods.kind = .statefulSet ∧
          pods.probes =
            [some (ofImage image (some d.port)), some (ofImage image (some d.port))] := by
  refine ⟨eq_probe_iff_of_ofImage? h, ?_⟩
  rintro settings options vars name space s rfl
  exact ⟨_, Workload.holdsPods_manifests _,
    probes_pods_of_ofImage? settings options vars name space h⟩

/-- A service with an image of postgres. -/
def ordersService : Service := { Service.empty "orders" with image := some "postgres:16" }

/-- Its stateful set is asked for its health by a connection to its port. -/
theorem Probe.ofImage_eq_probe_iff_postgres :
    Database.ofImage? "postgres:16" = some .postgres ∧
      ofImage "postgres:16" (some Database.postgres.port) = Database.postgres.probe ∧
      ∃ pods, (workloadOf .standard .standard [] "orders" "default" ordersService).manifests.filter
          (·.kind.holdsPods) = [pods] ∧
        pods.kind = .statefulSet ∧
        pods.probes = [some Database.postgres.probe, some Database.postgres.probe] := by
  have hKind : Database.ofImage? "postgres:16" = some .postgres := by decide
  obtain ⟨hIff, hProbes⟩ := ofImage_eq_probe_iff hKind
  have hProbe : ofImage "postgres:16" (some Database.postgres.port) = Database.postgres.probe :=
    hIff.2 (by decide)
  rw [hProbe] at hProbes
  exact ⟨hKind, hProbe, hProbes _ _ _ _ _ ordersService (by decide)⟩

/-- An image of postgres whose name holds that of redis is asked for its health as redis is. -/
theorem Probe.ofImage_ne_probe_of_both :
    Database.ofImage? "redis-labs/postgres:16" = some .postgres ∧
      ofImage "redis-labs/postgres:16" (some Database.postgres.port) = Database.redis.probe ∧
      Database.redis.probe ≠ Database.postgres.probe := by
  refine ⟨by decide, ?_, byCommand_ne_byPort _ _⟩
  rw [ofImage_eq, if_neg (by decide), if_neg (by decide), if_pos (by decide)]

end KubeCompose
