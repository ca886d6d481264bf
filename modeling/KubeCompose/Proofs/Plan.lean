import KubeCompose.Plan
import KubeCompose.Proofs.Name

/-!
# Laws of plans

What a plan is when it can be made: each service is planned under the normal form of its key, and
no two of these names are the same.
-/

namespace KubeCompose

open Compose (Service)

variable {settings : Settings} {options : ConvertOptions} {services : OrderedMap String Service}
  {vars : DotEnv} {plan : Plan}

/-- A plan is made when the namespace and the services have names. -/
theorem planOf_eq_ok {space : String} {names : List (String × String)}
    (hSpace : Name.ofText options.namespace = .ok space)
    (hNames : Name.assign (OrderedMap.keys services) = .ok names) :
    planOf settings options services vars =
      .ok
        { «namespace» := .ofNamespace space
          services := (services.zip names).map fun e =>
            planService (workloadOf settings options vars e.2.2 space e.1.2) } := by
  rw [planOf, hSpace, hNames]
  rfl

/-- The plan of a project in the namespace `space`. -/
structure Planned (settings : Settings) (options : ConvertOptions)
    (services : OrderedMap String Service) (vars : DotEnv) (space : String) (plan : Plan) :
    Prop where
  space_eq : Name.ofText options.namespace = .ok space
  names_ne : ∀ key ∈ OrderedMap.keys services, Name.normalize key ≠ ""
  distinct : ((OrderedMap.keys services).map Name.normalize).Nodup
  namespace_eq : plan.namespace = .ofNamespace space
  services_eq :
    plan.services = services.map fun e =>
      planService (workloadOf settings options vars (Name.normalize e.1) space e.2)

/-- What a plan is when there is one. -/
theorem planned_planOf (h : planOf settings options services vars = .ok plan) :
    ∃ space, Planned settings options services vars space plan := by
  rw [planOf] at h
  cases hSpace : Name.ofText options.namespace with
  | error e => simp [hSpace, bind, Except.bind] at h
  | ok space =>
    cases hNames : Name.assign (OrderedMap.keys services) with
    | error e => simp [hSpace, hNames, bind, Except.bind] at h
    | ok names =>
      obtain ⟨hNe, hDistinct, rfl⟩ := Name.assign_eq_ok_iff.1 hNames
      simp only [hSpace, hNames, bind, Except.bind, pure, Except.pure, Except.ok.injEq] at h
      refine ⟨space, hSpace, hNe, hDistinct, by rw [← h], ?_⟩
      rw [← h, OrderedMap.keys, List.map_map, ← List.map_prod_left_eq_zip, List.map_map]
      rfl

/-- A project can be planned exactly when the namespace and the services have names, and no two
services have the same. -/
theorem exists_planOf_iff :
    (∃ plan, planOf settings options services vars = .ok plan) ↔
      Name.normalize options.namespace ≠ "" ∧
        (∀ key ∈ OrderedMap.keys services, Name.normalize key ≠ "") ∧
        ((OrderedMap.keys services).map Name.normalize).Nodup := by
  constructor
  · rintro ⟨plan, hPlan⟩
    obtain ⟨space, hPlanned⟩ := planned_planOf hPlan
    obtain ⟨rfl, hSpace⟩ := Name.ofText_eq_ok_iff.1 hPlanned.space_eq
    exact ⟨hSpace, hPlanned.names_ne, hPlanned.distinct⟩
  · rintro ⟨hSpace, hNames, hDistinct⟩
    exact ⟨_, planOf_eq_ok (Name.ofText_eq_ok_iff.2 ⟨rfl, hSpace⟩)
      (Name.assign_eq_ok_iff.2 ⟨hNames, hDistinct, rfl⟩)⟩

end KubeCompose
