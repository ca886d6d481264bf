import KubeCompose.Yaml.Document
import KubeCompose.Yaml.Nesting

/-!
# Manifests

A manifest is the document of one object and the name of the file that holds it. A file may hold
several documents, each after the first behind a separator.
-/

namespace KubeCompose

/-- A kind of object. -/
inductive ManifestKind where
  | «namespace»
  | deployment
  | statefulSet
  | daemonSet
  | service
  | configMap
  | ingress
  | volumeClaim
  deriving DecidableEq, Repr

namespace ManifestKind

/-- All kinds. -/
def all : List ManifestKind :=
  [.namespace, .deployment, .statefulSet, .daemonSet, .service, .configMap, .ingress, .volumeClaim]

/-- What the name of a file of a kind ends in. -/
def fileSuffix : ManifestKind → String
  | .namespace => "namespace"
  | .deployment => "deployment"
  | .statefulSet => "statefulset"
  | .daemonSet => "daemonset"
  | .service => "service"
  | .configMap => "configmap"
  | .ingress => "ingress"
  | .volumeClaim => "pvc"

/-- The name of a kind in a document. -/
def name : ManifestKind → String
  | .namespace => "Namespace"
  | .deployment => "Deployment"
  | .statefulSet => "StatefulSet"
  | .daemonSet => "DaemonSet"
  | .service => "Service"
  | .configMap => "ConfigMap"
  | .ingress => "Ingress"
  | .volumeClaim => "PersistentVolumeClaim"

/-- The version of the interface that knows a kind. -/
def apiVersion : ManifestKind → String
  | .deployment | .statefulSet | .daemonSet => "apps/v1"
  | .ingress => "networking.k8s.io/v1"
  | _ => "v1"

/-- The kind of a name. -/
def ofName? (name : String) : Option ManifestKind := all.find? fun k => k.name == name

end ManifestKind

/-- The document of an object and its place. -/
structure Manifest where
  kind : ManifestKind
  stem : String
  document : Yaml
  deriving Repr

namespace Manifest

/-- The name of the file of a manifest. -/
def fileName (m : Manifest) : String :=
  match m.kind with
  | .namespace => "namespace.yaml"
  | kind => m.stem ++ "-" ++ kind.fileSuffix ++ ".yaml"

/-- The name of the object. -/
def name? (m : Manifest) : Option String :=
  (m.document.at? ["metadata", "name"]).bind fun v => v.asText?

/-- The names of kinds whose objects belong to no namespace. -/
def clusterKinds : List String :=
  ["Namespace", "PersistentVolume", "StorageClass", "ClusterRole", "ClusterRoleBinding",
   "CustomResourceDefinition", "PriorityClass", "IngressClass"]

/-- Whether objects of a kind belong to no namespace. -/
def isClusterKind (kind : String) : Bool := clusterKinds.contains kind

/-- The documents of a text that are not null. -/
def parseDocuments (text : String) : Except Yaml.ReadError (List Yaml) :=
  (Yaml.parseAll text).map fun docs => docs.filter fun d => !d.isNull

/-- The text of a list of documents. -/
def writeDocuments (docs : List Yaml) : Except Yaml.WriteError String :=
  (docs.mapM Yaml.write).map fun texts => String.join (texts.intersperse "---\n")

end Manifest

end KubeCompose
