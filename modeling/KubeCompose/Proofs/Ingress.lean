import KubeCompose.Proofs.Links
import KubeCompose.Proofs.PortMapping

/-!
# Where an ingress leads

A service gets an ingress when some port that it declares is one of the web. The ingress leads to
the one port of the service in front of the pods, which is that of the first mapping, or the port of
the database. So it need not lead to a port of the web, and `backend_of_mem_ingress` says when it
does: when the first mapping is itself of the web, or stands for a port that was not understood and
has the number of one that is.
-/

namespace KubeCompose

open Compose (Service)
open Manifest (ofKind)

variable {s : Service} {vars : DotEnv}

/-- A declared mapping with a port of the web, for which a service gets an ingress. -/
def PortMapping.IsWeb (m : PortMapping) : Prop :=
  m.isDeclared = true ∧ m.servicePort ∈ Classification.webPorts

instance (m : PortMapping) : Decidable m.IsWeb := inferInstanceAs (Decidable (_ ∧ _))

/-- The port of the service in front of the pods: the port of a database, or that of the first
mapping. -/
def Compose.Service.frontPort (s : Service) (vars : DotEnv) : Nat :=
  ((Database.ofImage? s.imageLower).map Database.port).getD
    (((s.portMappings vars).head?.map PortMapping.servicePort).getD PortMapping.fallbackPort)

theorem Database.port_not_mem_webPorts (d : Database) : d.port ∉ Classification.webPorts := by
  cases d <;> decide

section FrontPort

variable {first : PortMapping} {rest : List PortMapping}

theorem frontPort_of_database {d : Database} (h : Database.ofImage? s.imageLower = some d) :
    s.frontPort vars = d.port := by
  rw [Service.frontPort, h, Option.map_some, Option.getD_some]

theorem frontPort_of_first (h : Database.ofImage? s.imageLower = none)
    (hPorts : s.portMappings vars = first :: rest) : s.frontPort vars = first.servicePort := by
  rw [Service.frontPort, h, hPorts, Option.map_none, Option.getD_none, List.head?_cons,
    Option.map_some, Option.getD_some]

/-- A first mapping that stands for a port that was not understood has the port that all of these
have. -/
theorem servicePort_of_fallback (hPorts : s.portMappings vars = first :: rest)
    (h : first.fallback = true) : first.servicePort = PortMapping.fallbackPort := by
  obtain ⟨p, -, rfl⟩ : ∃ p ∈ s.ports, PortMapping.ofPort vars p = first :=
    List.mem_map.1 (by rw [← Service.portMappings, hPorts]; exact List.mem_cons_self ..)
  obtain ⟨hPublished, hTarget⟩ := (PortMapping.sound_ofPort vars p).fallback h
  rw [PortMapping.servicePort, hPublished, hTarget]
  rfl

/-- The port of the service is that of a mapping of the web exactly when the service is no database,
and its first mapping is of the web or takes its number from none. -/
theorem exists_web_frontPort_iff :
    (∃ m ∈ s.portMappings vars, m.IsWeb ∧ m.servicePort = s.frontPort vars) ↔
      Database.ofImage? s.imageLower = none ∧
        ∃ first ∈ (s.portMappings vars).head?,
          first.IsWeb ∨ first.fallback = true ∧
            ∃ m ∈ s.portMappings vars, m.IsWeb ∧ m.servicePort = PortMapping.fallbackPort := by
  constructor
  · rintro ⟨m, hm, hWeb, hPort⟩
    cases hDatabase : Database.ofImage? s.imageLower with
    | some d =>
      rw [frontPort_of_database hDatabase] at hPort
      exact absurd (hPort ▸ hWeb.2) d.port_not_mem_webPorts
    | none =>
      obtain ⟨first, rest, hPorts⟩ := List.exists_cons_of_ne_nil (List.ne_nil_of_mem hm)
      rw [frontPort_of_first hDatabase hPorts] at hPort
      refine ⟨rfl, first, by rw [hPorts]; rfl, ?_⟩
      cases hFallback : first.fallback with
      | true =>
        exact .inr ⟨rfl, m, hm, hWeb, hPort.trans (servicePort_of_fallback hPorts hFallback)⟩
      | false => exact .inl ⟨by rw [PortMapping.isDeclared, hFallback]; rfl, hPort ▸ hWeb.2⟩
  · rintro ⟨hDatabase, first, hFirst, hCase⟩
    obtain ⟨rest, hPorts⟩ := List.head?_eq_some_iff.1 hFirst
    rw [frontPort_of_first hDatabase hPorts]
    rcases hCase with hWeb | ⟨hFallback, m, hm, hWeb, hPort⟩
    · exact ⟨first, List.mem_of_head? hFirst, hWeb, rfl⟩
    · exact ⟨m, hm, hWeb, hPort.trans (servicePort_of_fallback hPorts hFallback).symm⟩

end FrontPort

theorem ports_front (w : Workload) :
    w.front.servicePorts.map (·.get? "port") = [some (.int w.servicePorts.1)] := by
  rw [Workload.servicePorts_front]
  generalize w.servicePorts = ports
  simp [Yaml.get?_fields, OrderedMap.find?_cons]

variable (settings : Settings) (options : ConvertOptions) (name space : String)

theorem servicePorts_workloadOf :
    (workloadOf settings options vars name space s).servicePorts.1 = s.frontPort vars := by
  have hDatabase : (workloadOf settings options vars name space s).classification.database =
      Database.ofImage? s.imageLower :=
    (coherent_workloadOf settings options vars name space s).database
  have hPorts : (workloadOf settings options vars name space s).ports = s.portMappings vars := rfl
  rw [Workload.servicePorts, hDatabase, hPorts, Service.frontPort]
  cases Database.ofImage? s.imageLower with
  | some d => rfl
  | none => cases s.portMappings vars <;> rfl

/-- A service gets an ingress exactly when one of its mappings is of the web. -/
theorem ingresses_workloadOf :
    (workloadOf settings options vars name space s).ingresses =
      if ∃ m ∈ s.portMappings vars, m.IsWeb then
        [⟨.ingress, name, (workloadOf settings options vars name space s).ingress⟩]
      else [] := by
  have hNeeds : (workloadOf settings options vars name space s).classification.needsIngress =
      (s.portMappings vars).any fun m =>
        m.isDeclared && Classification.webPorts.contains m.servicePort := rfl
  have hName : (workloadOf settings options vars name space s).name = name := rfl
  have hWeb : ((s.portMappings vars).any fun m =>
      m.isDeclared && Classification.webPorts.contains m.servicePort) = true ↔
        ∃ m ∈ s.portMappings vars, m.IsWeb := by
    simp [PortMapping.IsWeb]
  rw [Workload.ingresses, hNeeds, hName]
  exact if_congr hWeb rfl rfl

/-- The backend of an ingress has the port of the service in front of the pods. -/
theorem httpPaths_of_mem_ingresses {m : Manifest}
    (h : m ∈ (workloadOf settings options vars name space s).ingresses) :
    m.httpPaths.map (·.at? ["backend", "service", "port", "number"]) =
      [some (.int (s.frontPort vars))] := by
  obtain ⟨path, hPaths, -, hNumber⟩ := Workload.httpPaths_ingress h
  rw [hPaths, List.map_singleton, hNumber, servicePorts_workloadOf]

/-- An ingress stands beside the one service in front of the pods and leads to its port. -/
theorem backend_of_mem_ingress {m : Manifest}
    (h : m ∈ ofKind (workloadOf settings options vars name space s).manifests .ingress) :
    (∃ p ∈ s.portMappings vars, p.IsWeb) ∧
      (ofKind (workloadOf settings options vars name space s).manifests .service).map
          (fun front => front.servicePorts.map (·.get? "port")) =
        [[some (.int (s.frontPort vars))]] ∧
      m.httpPaths.map (·.at? ["backend", "service", "port", "number"]) =
        [some (.int (s.frontPort vars))] ∧
      ((∃ p ∈ s.portMappings vars, p.IsWeb ∧ p.servicePort = s.frontPort vars) ↔
        Database.ofImage? s.imageLower = none ∧
          ∃ first ∈ (s.portMappings vars).head?,
            first.IsWeb ∨ first.fallback = true ∧
              ∃ p ∈ s.portMappings vars, p.IsWeb ∧ p.servicePort = PortMapping.fallbackPort) := by
  rw [Workload.ofKind_ingress] at h
  have hBackend := httpPaths_of_mem_ingresses settings options name space h
  refine ⟨?_, ?_, hBackend, exists_web_frontPort_iff⟩
  · by_contra hNone
    rw [ingresses_workloadOf, if_neg hNone] at h
    exact List.not_mem_nil h
  · rw [Workload.ofKind_service, List.map_singleton, ports_front, servicePorts_workloadOf]

/-- A service of the web that declares the given ports. -/
def listeningService (ports : List Int) : Service :=
  { Service.empty "web" with image := some "nginx", ports := ports.map .number }

/-- What the objects of this service depend on. -/
def listeningWorkload (ports : List Int) : Workload :=
  workloadOf .standard .standard [] "web" "default" (listeningService ports)

/-- The ingress of this service. -/
def listeningIngress (ports : List Int) : Manifest :=
  ⟨.ingress, "web", (listeningWorkload ports).ingress⟩

theorem mem_ingresses_listeningWorkload {ports : List Int}
    (h : ∃ m ∈ (listeningService ports).portMappings [], m.IsWeb) :
    listeningIngress ports ∈ (listeningWorkload ports).ingresses := by
  rw [listeningWorkload, ingresses_workloadOf, if_pos h, List.mem_singleton]
  rfl

theorem backend_of_mem_ingress_listeningIngress :
    let m := listeningIngress [80, 9000]
    let mappings := (listeningService [80, 9000]).portMappings []
    m ∈ ofKind (listeningWorkload [80, 9000]).manifests .ingress ∧
      (∃ p ∈ mappings, p.IsWeb) ∧
      (ofKind (listeningWorkload [80, 9000]).manifests .service).map
          (fun front => front.servicePorts.map (·.get? "port")) = [[some (.int 80)]] ∧
      m.httpPaths.map (·.at? ["backend", "service", "port", "number"]) = [some (.int 80)] ∧
      ∃ p ∈ mappings, p.IsWeb ∧ p.servicePort = 80 := by
  intro m mappings
  have hIngress : m ∈ ofKind (listeningWorkload [80, 9000]).manifests .ingress := by
    rw [Workload.ofKind_ingress]
    exact mem_ingresses_listeningWorkload (by decide)
  obtain ⟨hWeb, hFront, hBackend, hIff⟩ :=
    backend_of_mem_ingress .standard .standard "web" "default" hIngress
  have hPort : (listeningService [80, 9000]).frontPort [] = 80 := by decide
  rw [hPort] at hFront hBackend hIff
  exact ⟨hIngress, hWeb, hFront, hBackend, hIff.2 ⟨by decide, _, rfl, .inl (by decide)⟩⟩

/-- Where the port of the web is not the first, the ingress leads to another one. -/
theorem not_web_backend_of_second :
    let m := listeningIngress [9000, 80]
    m ∈ ofKind (listeningWorkload [9000, 80]).manifests .ingress ∧
      m.httpPaths.map (·.at? ["backend", "service", "port", "number"]) = [some (.int 9000)] ∧
      9000 ∉ Classification.webPorts := by
  intro m
  have hIngress : m ∈ (listeningWorkload [9000, 80]).ingresses :=
    mem_ingresses_listeningWorkload (by decide)
  have hPort : (listeningService [9000, 80]).frontPort [] = 9000 := by decide
  have hBackend := httpPaths_of_mem_ingresses .standard .standard "web" "default" hIngress
  rw [hPort] at hBackend
  exact ⟨by rwa [Workload.ofKind_ingress], hBackend, by decide⟩

end KubeCompose
