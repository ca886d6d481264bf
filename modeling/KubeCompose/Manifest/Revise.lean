import KubeCompose.Image
import KubeCompose.Manifest.Basic
import KubeCompose.Name

/-!
# Revising documents

The changes that are made to the document of any object, whoever wrote it: its namespace is set, its
images are those of the registry, the underscores of names give way to dashes, and a deployment may
become a daemon set. What a document does not have is not added, but for the namespace itself.
-/

namespace KubeCompose

namespace Yaml

/-- Changes the entries of a mapping, also below tags. -/
def updateMap (f : List (Yaml × Yaml) → List (Yaml × Yaml)) : Yaml → Yaml
  | .tagged tag v => .tagged tag (updateMap f v)
  | .map entries => .map (f entries)
  | v => v

/-- Changes the items of a sequence, also below tags. -/
def updateSeq (f : Yaml → Yaml) : Yaml → Yaml
  | .tagged tag v => .tagged tag (updateSeq f v)
  | .seq items => .seq (items.map f)
  | v => v

/-- Changes the value of a key, where there is one. -/
def updateKey (key : String) (f : Yaml → Yaml) (v : Yaml) : Yaml :=
  v.updateMap fun entries => OrderedMap.modify entries (.str key) f

/-- Sets the value of a key. -/
def setKey (key : String) (value : Yaml) (v : Yaml) : Yaml :=
  v.updateMap fun entries => OrderedMap.insert entries (.str key) value

/-- Takes a key away; the last entry takes its place. -/
def removeKey (key : String) (v : Yaml) : Yaml :=
  v.updateMap fun entries => OrderedMap.swapRemove entries (.str key)

end Yaml

namespace Revise

open Yaml (updateKey updateSeq setKey removeKey)

/-- The kind of an object. -/
def kindOf (document : Yaml) : Option String := (document.get? "kind").bind fun v => v.asText?

/-! ### Namespace -/

/-- Sets the namespace of an object that belongs to one. -/
def setNamespace (name : String) (document : Yaml) : Yaml :=
  if (kindOf document).any Manifest.isClusterKind then document
  else updateKey "metadata" (setKey "namespace" (.str name)) document

/-! ### Images -/

/-- The kinds whose objects hold a template of pods. -/
def workloadKinds : List String := ["Deployment", "StatefulSet", "DaemonSet"]

/-- Whether an object holds a template of pods. -/
def isWorkload (document : Yaml) : Bool := (kindOf document).any workloadKinds.contains

/-- The lists of containers in a pod. -/
def containerLists : List String := ["containers", "initContainers"]

/-- An image in the registry. What is no text and what stays the same is left alone. -/
def moveImage (registry : String) (image : Yaml) : Yaml :=
  match image.asText? with
  | none => image
  | some current =>
    let moved := Image.inRegistry current registry
    if moved = current then image else .str moved

/-- Moves the images of an object's containers to the registry. -/
def moveImages (registry : String) (document : Yaml) : Yaml :=
  if isWorkload document then
    let inPod (pod : Yaml) : Yaml :=
      containerLists.foldl
        (fun pod list => updateKey list (updateSeq (updateKey "image" (moveImage registry))) pod)
        pod
    updateKey "spec" (updateKey "template" (updateKey "spec" inPod)) document
  else document

/-- The images of an object's containers. -/
def images (document : Yaml) : List String :=
  if isWorkload document then
    match document.at? ["spec", "template", "spec"] with
    | none => []
    | some pod =>
      containerLists.flatMap fun list =>
        (((pod.get? list).bind fun v => v.asSeq?).getD []).filterMap fun c =>
          (c.get? "image").bind fun v => v.asText?
  else []

/-- How many images of an object move to the registry. -/
def movedCount (registry : String) (document : Yaml) : Nat :=
  ((images document).filter fun i => Image.inRegistry i registry != i).length

/-! ### Underscores -/

/-- A step on the way to a part of a document: a key, or every item of a sequence. -/
inductive Step where
  | key (name : String)
  | each
  deriving DecidableEq, Repr

/-- Changes the parts of a document at a path. A key is found below tags, items are not. -/
def changeAt (f : Yaml → Yaml) : List Step → Yaml → Yaml
  | [], v => f v
  | .key name :: path, v => updateKey name (changeAt f path) v
  | .each :: path, .seq items => .seq (items.map (changeAt f path))
  | .each :: _, v => v

/-- A text with dashes for its underscores. -/
def dashed (s : String) : String := s.map fun c => if c = '_' then '-' else c

/-- Puts dashes for the underscores of a text. -/
def dashText : Yaml → Yaml
  | .str s => .str (dashed s)
  | v => v

/-- Puts dashes for the underscores of the text keys of a mapping. Of keys that become one, the
first keeps its place and the last its value. -/
def dashKeys : Yaml → Yaml
  | .map entries =>
    .map <| OrderedMap.ofList <| entries.map fun (k, v) =>
      match k with
      | .str s => (.str (dashed s), v)
      | k => (k, v)
  | v => v

/-- The template of pods in a workload. -/
def template : List Step := [.key "spec", .key "template"]

/-- The values of the environment of the containers of a list, in a pod at a path. -/
def environmentValues (pod : List Step) (list : String) : List Step :=
  pod ++ [.key list, .each, .key "env", .each, .key "value"]

/-- The texts and the mappings with keys in which underscores give way, in order: in a workload with
its template of pods, and in a pod of its own. -/
def dashRules : List (List Step × (Yaml → Yaml)) :=
  let pod := template ++ [.key "spec"]
  let barePod := [.key "spec"]
  [([.key "metadata", .key "name"], dashText),
   ([.key "spec", .key "selector", .key "matchLabels"], dashKeys),
   (template ++ [.key "metadata", .key "labels"], dashKeys),
   (pod ++ [.key "hostname"], dashText),
   (environmentValues pod "containers", dashText),
   (environmentValues pod "initContainers", dashText),
   (barePod ++ [.key "hostname"], dashText),
   (environmentValues barePod "containers", dashText),
   (environmentValues barePod "initContainers", dashText)]

/-- Puts dashes for underscores in the names of an object. -/
def dashNames (document : Yaml) : Yaml :=
  dashRules.foldl (fun d (path, f) => changeAt f path d) document

/-! ### Daemon sets -/

/-- Makes a daemon set of a deployment: it has no status, no number of replicas and no strategy. -/
def toDaemonSet (document : Yaml) : Yaml :=
  if kindOf document = some "Deployment" then
    let document := setKey "kind" (.str "DaemonSet") document
    let document := setKey "apiVersion" (.str "apps/v1") document
    let document := removeKey "status" document
    updateKey "spec" (fun spec => removeKey "strategy" (removeKey "replicas" spec)) document
  else document

end Revise

end KubeCompose
