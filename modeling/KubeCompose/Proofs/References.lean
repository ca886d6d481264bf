import KubeCompose.Proofs.Selectors

/-!
# References by name

Objects are referred to by their names: variables are taken from a config map, a volume is a claim,
and an ingress or a stateful set has a service. Underscores give way in the names of objects, but
not where these are referred to. So a reference is kept exactly when the name holds no underscore.
-/

namespace KubeCompose.Revise

variable {p : List Step} {document object : Yaml}

/-! ### Parts of a document after changes elsewhere -/

/-- A change at a path that parts from another one leaves what is reached over that one. -/
theorem reached_changeAt_of_parts {q : List Step} (h : partAtKey p q = true) (f : Yaml → Yaml)
    (v : Yaml) : reached p (changeAt f q v) = reached p v := by
  induction p generalizing q v with
  | nil => simp [partAtKey] at h
  | cons step p ih =>
    cases q with
    | nil => cases step <;> simp [partAtKey] at h
    | cons other q =>
      cases step with
      | key name =>
        cases other with
        | each => simp [partAtKey] at h
        | key otherName =>
          rw [changeAt, reached, reached]
          by_cases hName : name = otherName
          · subst hName
            have hRest : partAtKey p q = true := by simpa [partAtKey] using h
            rw [Yaml.get?_updateKey]
            cases v.get? name with
            | none => rfl
            | some u => simp [ih hRest u]
          · rw [Yaml.get?_updateKey_of_ne hName]
      | each =>
        cases other with
        | key otherName => simp [partAtKey] at h
        | each =>
          have hRest : partAtKey p q = true := by simpa [partAtKey] using h
          cases v with
          | seq items =>
            rw [changeAt, reached, reached, List.flatMap_map]
            exact List.flatMap_congr fun u _ => ih hRest u
          | _ => rfl

/-- Rules at paths that part from a path leave what is reached over it. -/
theorem reached_foldl_of_parts {rules : List (List Step × (Yaml → Yaml))}
    (h : ∀ rule ∈ rules, partAtKey p rule.1 = true) (document : Yaml) :
    reached p (rules.foldl (fun d (q, f) => changeAt f q d) document) = reached p document := by
  induction rules generalizing document with
  | nil => rfl
  | cons rule rules ih =>
    obtain ⟨hRule, hRules⟩ := List.forall_mem_cons.1 h
    rw [List.foldl_cons, ih hRules]
    exact reached_changeAt_of_parts hRule rule.2 document

/-! ### Names and references -/

/-- The objects that others refer to by name. -/
inductive Referent where
  | configMap
  | claim
  | service
  deriving DecidableEq, Repr

/-- Where pods stand: in the template of a workload, in that of a job that is run again and again,
and on their own. -/
def podPaths : List (List Step) :=
  [template ++ [.key "spec"], [.key "spec", .key "jobTemplate"] ++ template ++ [.key "spec"],
   [.key "spec"]]

/-- Where objects are referred to by name. -/
def referencePaths : Referent → List (List Step)
  | .configMap =>
    podPaths.flatMap fun pod => containerLists.map fun list =>
      pod ++ [.key list, .each, .key "env", .each, .key "valueFrom", .key "configMapKeyRef",
        .key "name"]
  | .claim =>
    podPaths.map (· ++ [.key "volumes", .each, .key "persistentVolumeClaim", .key "claimName"])
  | .service =>
    [[.key "spec", .key "rules", .each, .key "http", .key "paths", .each, .key "backend",
      .key "service", .key "name"],
     [.key "spec", .key "rules", .each, .key "http", .key "paths", .each, .key "backend",
      .key "serviceName"],
     [.key "spec", .key "defaultBackend", .key "service", .key "name"],
     [.key "spec", .key "backend", .key "serviceName"],
     [.key "spec", .key "serviceName"]]

/-- The references of a document, in order. -/
def references (r : Referent) (document : Yaml) : List Yaml :=
  (referencePaths r).flatMap fun path => reached path document

/-- The name of an object. -/
def nameOf? (object : Yaml) : Option Yaml := object.at? ["metadata", "name"]

/-- Whether a reference of a document, given by its place among them, is the name of an object. -/
def RefersTo (r : Referent) (document : Yaml) (i : Nat) (object : Yaml) : Prop :=
  ∃ name, (references r document)[i]? = some name ∧ nameOf? object = some name

theorem parts_referencePaths (r : Referent) :
    ∀ path ∈ referencePaths r, ∀ rule ∈ dashRules, partAtKey path rule.1 = true := by
  cases r <;> decide +kernel

/-- Underscores do not give way where objects are referred to. -/
theorem references_dashNames (r : Referent) (document : Yaml) :
    references r (dashNames document) = references r document := by
  refine List.flatMap_congr fun path hPath => ?_
  exact reached_foldl_of_parts (parts_referencePaths r path hPath) document

/-- Underscores give way in the name of an object. -/
theorem nameOf?_dashNames (object : Yaml) :
    nameOf? (dashNames object) = (nameOf? object).map dashText :=
  at?_foldl ["metadata", "name"] [] dashText [] dashRules.tail (by simp) (by decide +kernel) object

theorem dashText_eq_self_iff {name : Yaml} :
    dashText name = name ↔ ∀ s, name = .str s → '_' ∉ s.toList := by
  cases name with
  | str s =>
    constructor
    · intro hSame t hText
      obtain rfl := Yaml.str.inj hText
      have hDashed : dashed s = s := Yaml.str.inj hSame
      exact hDashed ▸ underscore_notMem_dashed s
    · intro hNone
      rw [dashText, dashed_eq_self (hNone s rfl)]
  | _ => simp [dashText]

/-- When underscores give way in all documents, an object is still found by the reference that named
it exactly when its name holds no underscore. -/
theorem refersTo_dashNames_iff {r : Referent} {i : Nat} (h : RefersTo r document i object) :
    RefersTo r (dashNames document) i (dashNames object) ↔
      ∀ s, nameOf? object = some (.str s) → '_' ∉ s.toList := by
  obtain ⟨name, hReference, hName⟩ := h
  have hAfter : RefersTo r (dashNames document) i (dashNames object) ↔ dashText name = name := by
    rw [RefersTo, references_dashNames, nameOf?_dashNames, hReference, hName]
    simp [eq_comm]
  rw [hAfter, dashText_eq_self_iff, hName]
  simp

/-! ### A volume and its claim -/

/-- A deployment whose pods have the claim of a name as their volume. -/
def deploymentOfClaim (name : String) : Yaml :=
  .fields
    [("kind", .str "Deployment"),
     ("metadata", .fields [("name", .str "web")]),
     ("spec",
      .fields
        [("template",
          .fields
            [("spec",
              .fields
                [("volumes",
                  .seq
                    [.fields
                      [("name", .str "data"),
                       ("persistentVolumeClaim", .fields [("claimName", .str name)])]])])])])]

/-- A claim of a name. -/
def claimOf (name : String) : Yaml :=
  .fields [("kind", .str "PersistentVolumeClaim"), ("metadata", .fields [("name", .str name)])]

theorem refersTo_claimOf (name : String) :
    RefersTo .claim (deploymentOfClaim name) 0 (claimOf name) :=
  ⟨.str name, rfl, rfl⟩

/-- A claim whose name holds no underscore is still the volume of the pods. -/
theorem refersTo_dashNames_claimOf :
    RefersTo .claim (dashNames (deploymentOfClaim "db-data")) 0
      (dashNames (claimOf "db-data")) := by
  refine (refersTo_dashNames_iff (refersTo_claimOf "db-data")).2 fun s hName => ?_
  have hText : some (Yaml.str "db-data") = some (.str s) := hName
  obtain rfl : "db-data" = s := by simpa using hText
  decide

/-- A claim with an underscore in its name is the volume of the pods before, and not after. -/
theorem not_refersTo_dashNames_claimOf :
    RefersTo .claim (deploymentOfClaim "db_data") 0 (claimOf "db_data") ∧
      ¬ RefersTo .claim (dashNames (deploymentOfClaim "db_data")) 0
        (dashNames (claimOf "db_data")) := by
  refine ⟨refersTo_claimOf "db_data", ?_⟩
  rintro ⟨name, hReference, hName⟩
  rw [references_dashNames] at hReference
  rw [nameOf?_dashNames] at hName
  have hOld : some (Yaml.str "db_data") = some name := hReference
  have hNew : some (Yaml.str (dashed "db_data")) = some name := hName
  have hSame : dashed "db_data" = "db_data" := by simpa using hNew.trans hOld.symm
  exact absurd (hSame ▸ underscore_notMem_dashed "db_data") (by decide)

end KubeCompose.Revise
