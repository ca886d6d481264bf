import KubeCompose.Database
import KubeCompose.Manifest.Basic
import KubeCompose.Manifest.Probe
import KubeCompose.Settings.Basic

/-!
# The objects of a service

A database becomes a stateful set with a claim of its own and takes its settings from a config map;
any other service becomes a deployment. Both have a service in front, and where they need it an
ingress and a claim. The fields of an object stand in alphabetical order behind its version and
kind.
-/

namespace KubeCompose

open Yaml (fields)

/-- A service with all that its objects depend on. -/
structure Workload where
  service : Compose.Service
  name : String
  «namespace» : String
  environment : OrderedMap String String
  classification : Classification
  ports : List PortMapping
  limits : Limits
  image : String

/-- The entries of a map in the order of their keys. -/
def sortedByKey {α : Type} (entries : List (String × α)) : List (String × α) :=
  entries.mergeSort fun a b => decide (a.1 ≤ b.1)

/-- A mapping of texts in the order of their keys. -/
def Yaml.textMap (entries : List (String × String)) : Yaml :=
  fields ((sortedByKey entries).map fun (k, v) => (k, .str v))

/-- A list under a key, left out when it is empty. -/
def Yaml.listField (key : String) (items : List Yaml) : List (String × Yaml) :=
  if items.isEmpty then [] else [(key, .seq items)]

namespace Workload

/-- An object of a kind, with its fields behind its version and kind. -/
def object (kind : ManifestKind) (rest : List (String × Yaml)) : Yaml :=
  fields (("apiVersion", .str kind.apiVersion) :: ("kind", .str kind.name) :: rest)

/-- The name and the namespace of an object. -/
def metadataNamed (name «namespace» : String) : Yaml :=
  fields [("name", .str name), ("namespace", .str «namespace»)]

/-- The name and the namespace of the objects of a service. -/
def metadata (w : Workload) : Yaml := metadataNamed w.name w.namespace

/-- The labels by which the pods of a service are found. -/
def labels (w : Workload) : Yaml := fields [("app", .str w.name)]

/-- The resources of a container. -/
def resources (l : Limits) : Yaml :=
  let quantities (q : Quantities) : Yaml := fields [("cpu", .str q.cpu), ("memory", .str q.memory)]
  fields [("limits", quantities l.limits), ("requests", quantities l.requests)]

/-- The name of the claim for the data of a service. -/
def claimName (name : String) : String := name ++ "-data"

/-- What a claim asks for. -/
def claimSpec : Yaml :=
  fields
    [("accessModes", .seq [.str "ReadWriteOnce"]),
     ("resources", fields [("requests", fields [("storage", .str "1Gi")])])]

/-- The name of the volume with the data of a service. -/
def dataVolume : String := "data"

/-- A mount of the data of a service. -/
def dataMount (path : String) : Yaml :=
  fields [("mountPath", .str path), ("name", .str dataVolume)]

/-- A port of a container. -/
def containerPort (port : Nat) : Yaml := fields [("containerPort", .int port)]

/-- The only container of a pod. -/
def container (w : Workload) (env : List Yaml) (ports : List Nat) (probe : Yaml)
    (mounts : List Yaml) : Yaml :=
  fields
    (Yaml.listField "env" env ++ [("image", .str w.image), ("livenessProbe", probe),
      ("name", .str w.name)] ++ Yaml.listField "ports" (ports.map containerPort) ++
      [("readinessProbe", probe), ("resources", resources w.limits)] ++
      Yaml.listField "volumeMounts" mounts)

/-- The template of the pods of a service. -/
def podTemplate (w : Workload) (container : Yaml) (volumes : List Yaml) : Yaml :=
  fields
    [("metadata", fields [("labels", w.labels)]),
     ("spec", fields (("containers", .seq [container]) :: Yaml.listField "volumes" volumes))]

/-- How pods are selected. -/
def selector (w : Workload) : Yaml := fields [("matchLabels", w.labels)]

/-- Where the data of a service is mounted: at the path of its first named volume that has one. -/
def dataPath? (w : Workload) : Option String :=
  if w.classification.needsClaim then
    (w.service.volumes.filter (·.isNamed)).findSome? fun v => v.containerPath?
  else none

/-- The deployment of a service. -/
def deployment (w : Workload) : Yaml :=
  let env := w.environment.map fun (k, v) => fields [("name", .str k), ("value", .str v)]
  let probe := Probe.ofImage w.service.imageLower (w.ports.head?.map (·.target))
  let (mounts, volumes) :=
    match w.dataPath? with
    | some path =>
      ([dataMount path],
       [fields
          [("name", .str dataVolume),
           ("persistentVolumeClaim", fields [("claimName", .str (claimName w.name))])]])
    | none => ([], [])
  let container := w.container env (w.ports.map (·.target)) probe mounts
  object .deployment
    [("metadata", w.metadata),
     ("spec",
      fields
        [("replicas", .int (w.service.replicas.getD 1)), ("selector", w.selector),
         ("template", w.podTemplate container volumes)])]

/-- The settings of a database, sorted. One with a fixed set of them takes their values from the
environment where it has them. -/
def databaseSettings (d : Database) (name : String) (environment : OrderedMap String String) :
    List (String × String) :=
  sortedByKey <|
    match d.settings? with
    | none => environment
    | some settings =>
      settings.map fun (key, default) =>
        let value :=
          match default with
          | .literal value => value
          | .databaseName => name ++ "_db"
        (key, (OrderedMap.find? environment key).getD value)

/-- The stateful set of a database, governed by the service of the given name. -/
def statefulSet (w : Workload) (d : Database) (governor : String) : Yaml :=
  let env := (databaseSettings d w.name w.environment).map fun (key, _) =>
    fields
      [("name", .str key),
       ("valueFrom",
        fields [("configMapKeyRef", fields [("key", .str key), ("name", .str w.name)])])]
  let probe := Probe.ofImage w.service.imageLower (some d.port)
  let container := w.container env [d.port] probe [dataMount d.mountPath]
  let claim :=
    object .volumeClaim
      [("metadata", fields [("name", .str dataVolume)]), ("spec", claimSpec)]
  object .statefulSet
    [("metadata", w.metadata),
     ("spec",
      fields
        [("replicas", .int 1), ("selector", w.selector), ("serviceName", .str governor),
         ("template", w.podTemplate container []), ("volumeClaimTemplates", .seq [claim])])]

/-- The port of the service and the port of the container behind it. -/
def servicePorts (w : Workload) : Nat × Nat :=
  match w.classification.database with
  | some d => (d.port, d.port)
  | none =>
    match w.ports with
    | m :: _ => (m.servicePort, m.target)
    | [] => (PortMapping.fallbackPort, PortMapping.fallbackPort)

/-- The service in front of the pods. -/
def frontService (w : Workload) : Yaml :=
  let (port, target) := w.servicePorts
  object .service
    [("metadata", w.metadata),
     ("spec",
      fields
        [("ports",
          .seq
            [fields [("port", .int port), ("protocol", .str "TCP"), ("targetPort", .int target)]]),
         ("selector", w.labels)])]

/-- The annotation that passes requests on at the root. -/
def rootTargetKey : String := "nginx.ingress.kubernetes.io/rewrite-target"

/-- The ingress of a service: a local host whose requests go to the service. -/
def ingress (w : Workload) : Yaml :=
  let backend :=
    fields
      [("service",
        fields
          [("name", .str w.name), ("port", fields [("number", .int w.servicePorts.1)])])]
  let path :=
    fields [("backend", backend), ("path", .str "/"), ("pathType", .str "Prefix")]
  object .ingress
    [("metadata",
      fields
        [("annotations", fields [(rootTargetKey, .str "/")]), ("name", .str w.name),
         ("namespace", .str w.namespace)]),
     ("spec",
      fields
        [("rules",
          .seq
            [fields
              [("host", .str (w.name ++ ".local")),
               ("http", fields [("paths", .seq [path])])]])])]

/-- A config map with the given data. -/
def configMapOf (w : Workload) (data : List (String × String)) : Yaml :=
  object .configMap [("data", .textMap data), ("metadata", w.metadata)]

/-- The config map with the environment of a service. -/
def configMap (w : Workload) : Yaml := w.configMapOf w.environment

/-- The config map with the settings of a database. -/
def databaseConfigMap (w : Workload) (d : Database) : Yaml :=
  w.configMapOf (databaseSettings d w.name w.environment)

/-- The claim for the data of a service. -/
def volumeClaim (w : Workload) : Yaml :=
  object .volumeClaim
    [("metadata", metadataNamed (claimName w.name) w.namespace), ("spec", claimSpec)]

/-- All manifests of a service, in the order in which they are written. -/
def manifests (w : Workload) : List Manifest :=
  let manifest (kind : ManifestKind) (document : Yaml) : Manifest := ⟨kind, w.name, document⟩
  let pods :=
    match w.classification.database with
    | some d =>
      [manifest .statefulSet (w.statefulSet d w.name), manifest .service w.frontService,
       manifest .configMap (w.databaseConfigMap d)]
    | none =>
      [manifest .deployment w.deployment, manifest .service w.frontService] ++
        if w.environment.isEmpty then [] else [manifest .configMap w.configMap]
  pods ++ (if w.classification.needsIngress then [manifest .ingress w.ingress] else []) ++
    if w.classification.needsClaim then [manifest .volumeClaim w.volumeClaim] else []

end Workload

/-- The namespace that holds all objects of a project. -/
def Manifest.ofNamespace (name : String) : Manifest :=
  ⟨.namespace, name, Workload.object .namespace [("metadata", fields [("name", .str name)])]⟩

end KubeCompose
