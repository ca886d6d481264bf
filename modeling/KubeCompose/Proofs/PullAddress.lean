import KubeCompose.Proofs.PulledImages
import KubeCompose.Proofs.PushTargets

/-!
# The address for pulling and the address for pushing

An address has a scheme, a host, a port and a path, of which only the host is always there. The
address for pushing keeps everything in its place, but for slashes at its end, and the server of a
login is its host with its port. The address for pulling is the same with another host exactly when
there is no scheme in front: what is taken for the host reaches to the first colon or slash, and
that is the one behind the scheme.
-/

namespace KubeCompose

open Text (dropTrailing)

/-! ### The parts of an address -/

/-- A scheme in front of an address. -/
inductive Scheme where
  | http
  | https
  deriving DecidableEq, Repr

/-- The text of a scheme. -/
def Scheme.text : Scheme → String
  | .http => "http://"
  | .https => "https://"

/-- An address by its parts. -/
structure RegistryAddress where
  scheme : Option Scheme
  host : String
  port : Option String
  path : Option String
  port_ok : ∀ p ∈ port, p ≠ "" ∧ '/' ∉ p.toList

namespace RegistryAddress

variable (a : RegistryAddress)

/-- The same place at another host. -/
def withHost (host : String) : RegistryAddress := { a with host := host }

/-- The scheme as it is written. -/
def schemeText : String := (a.scheme.map Scheme.text).getD ""

/-- The port as it is written. -/
def portText : String := (a.port.map (":" ++ ·)).getD ""

/-- The path as it is written. -/
def pathText : String := (a.path.map ("/" ++ ·)).getD ""

/-- The host with its port. -/
def server : String := a.host ++ a.portText

/-- The address as it is written. -/
def written : String := a.schemeText ++ a.server ++ a.pathText

/-- The path without slashes at its end. -/
def shownPath : String := String.ofList (dropTrailing (· == '/') a.pathText.toList)

/-- The address without slashes at its end. -/
def text : String := a.schemeText ++ a.server ++ a.shownPath

theorem shownPath_cases : a.shownPath.toList = [] ∨ ∃ cs, a.shownPath.toList = '/' :: cs := by
  rw [shownPath, pathText, String.toList_ofList]
  cases a.path with
  | none => exact .inl rfl
  | some path =>
    have hPath : ("/" ++ path).toList = '/' :: path.toList := by simp
    rw [Option.map_some, Option.getD_some, hPath, Text.dropTrailing_cons_of_pos (by rfl)]
    split
    · exact .inl rfl
    · exact .inr ⟨_, rfl⟩

theorem endsHost_shownPath : EndsHost a.shownPath.toList := by
  rcases a.shownPath_cases with h | ⟨cs, h⟩
  · rw [h]; rfl
  · rw [h]; exact endsHost_slash cs

theorem endsHost_tail : EndsHost (a.portText ++ a.shownPath).toList := by
  rw [portText]
  cases a.port with
  | none =>
    rw [Option.map_none, Option.getD_none, String.empty_append]
    exact a.endsHost_shownPath
  | some port =>
    have hText : (":" ++ port ++ a.shownPath).toList =
        ':' :: (port ++ a.shownPath).toList := by simp
    rw [Option.map_some, Option.getD_some, hText]
    exact endsHost_colon _

/-- A port is not empty, so that no two slashes stand behind a colon. -/
theorem tail_ne (cs : List Char) : (a.portText ++ a.shownPath).toList ≠ ':' :: '/' :: cs := by
  have hPort := a.port_ok
  rw [String.toList_append, portText]
  cases h : a.port with
  | none =>
    intro hTail
    rcases a.shownPath_cases with hShown | ⟨ds, hShown⟩ <;> simp [hShown] at hTail
  | some port =>
    obtain ⟨hNonempty, hSlash⟩ := hPort port h
    obtain ⟨c, ds, hText⟩ := List.exists_cons_of_ne_nil (mt String.toList_eq_nil_iff.1 hNonempty)
    rw [hText] at hSlash
    intro hTail
    simp [hText] at hTail
    simp [hTail] at hSlash

theorem slash_not_mem_server (h : IsHostName a.host.toList) : '/' ∉ a.server.toList := by
  have hPort := a.port_ok
  rw [server, portText, String.toList_append, List.mem_append, not_or]
  refine ⟨h.1, ?_⟩
  cases hp : a.port with
  | none => simp
  | some port => simpa using (hPort port hp).2

/-- In front of its path an address with a host does not end in a slash. -/
theorem getLast?_front (hHost : IsHostName a.host.toList)
    (hNonempty : a.scheme ≠ none → a.host ≠ "") :
    (a.schemeText ++ a.server).toList.getLast? ≠ some '/' := by
  have hServer : a.server.toList.getLast? ≠ some '/' := fun hLast =>
    a.slash_not_mem_server hHost (List.mem_of_getLast? hLast)
  rw [String.toList_append]
  refine ne_slash_of_getLast?_append (fun hNil => ?_) hServer
  cases hs : a.scheme with
  | none => simp [schemeText, hs]
  | some scheme =>
    have hNone : a.host = "" := by
      rw [server, String.toList_append, List.append_eq_nil_iff] at hNil
      exact String.toList_eq_nil_iff.1 hNil.1
    exact absurd hNone (hNonempty (by simp [hs]))

/-- What stands behind the scheme begins with none. -/
theorem not_hasScheme (h : IsHostName a.host.toList) : ¬ HasScheme (a.server ++ a.shownPath) := by
  have hNot (name rest : List Char) (hName : IsHostName name) :
      name ++ ':' :: '/' :: rest ≠ (a.server ++ a.shownPath).toList := by
    intro hText
    rw [server, String.append_assoc, String.toList_append] at hText
    have hTail := congrArg (List.dropWhile isHostChar) hText
    rw [hName.dropWhile_append (endsHost_colon _), h.dropWhile_append a.endsHost_tail] at hTail
    exact a.tail_ne rest hTail.symm
  have hHttps : "https://".toList = "https".toList ++ [':', '/', '/'] := by decide
  have hHttp : "http://".toList = "http".toList ++ [':', '/', '/'] := by decide
  rintro (⟨rest, hRest⟩ | ⟨rest, hRest⟩)
  · rw [hHttps, List.append_assoc] at hRest
    exact hNot "https".toList ('/' :: rest) (by decide) hRest
  · rw [hHttp, List.append_assoc] at hRest
    exact hNot "http".toList ('/' :: rest) (by decide) hRest

end RegistryAddress

/-- The server of an address does not name its scheme. -/
theorem registryServer_append {rest : String} (h : ¬ HasScheme rest) (scheme : Option Scheme) :
    registryServer ((scheme.map Scheme.text).getD "" ++ rest) = registryServer rest := by
  rw [HasScheme, not_or] at h
  cases scheme with
  | none => rw [Option.map_none, Option.getD_none, String.empty_append]
  | some scheme =>
    rw [Option.map_some, Option.getD_some, registryServer, registryServer, String.toList_append,
      Text.dropStarts_eq_self h.1, Text.dropStarts_eq_self h.2]
    cases scheme with
    | http =>
      have hOther : ¬ "https://".toList <+: Scheme.http.text.toList ++ rest.toList := by
        simp [Scheme.text]
      rw [Text.dropStarts_eq_self hOther, Scheme.text,
        Text.dropStarts_append (by decide), Text.dropStarts_eq_self h.2]
    | https =>
      rw [Scheme.text, Text.dropStarts_append (by decide), Text.dropStarts_eq_self h.1,
        Text.dropStarts_eq_self h.2]

namespace RegistryAddress

variable {a : RegistryAddress}

/-- One logs in to the host with its port. -/
theorem registryServer_text (h : IsHostName a.host.toList) : registryServer a.text = a.server := by
  have hBefore : Text.before '/' (a.server ++ a.shownPath).toList = a.server.toList := by
    rw [String.toList_append]
    rcases a.shownPath_cases with hShown | ⟨cs, hShown⟩
    · rw [hShown, List.append_nil, Text.before_eq_self (a.slash_not_mem_server h)]
    · rw [hShown, Text.before_append_cons, Text.before_eq_self (a.slash_not_mem_server h)]
  rw [text, String.append_assoc, schemeText, registryServer_append (a.not_hasScheme h)]
  exact String.toList_inj.1 ((toList_registryServer (a.not_hasScheme h)).trans hBefore)

end RegistryAddress

/-! ### Where a registry is -/

/-- The address of a registry by its host, its port and its path. -/
def Registry.ownAddress (r : Registry) : RegistryAddress where
  scheme := none
  host := r.host
  port := some (Number.decimal r.port)
  path := some (String.ofList r.trimmedPath)
  port_ok := by
    intro p hp
    rw [Option.mem_some_iff] at hp
    subst hp
    have hNonempty : Number.decimal r.port ≠ "" := by
      rw [Number.decimal, ne_eq, String.ofList_eq_empty_iff]
      exact Nat.toDigits_ne_nil
    exact ⟨hNonempty, slash_not_mem_decimal r.port⟩

/-- A registry is at an explicit address, or where its host, its port and its path say. -/
inductive Registry.IsAt (r : Registry) : RegistryAddress → Prop
  | given {a : RegistryAddress} (hUrl : r.url = some a.written) (hHost : IsHostName a.host.toList)
      (hNonempty : a.scheme ≠ none → a.host ≠ "") : r.IsAt a
  | composed (hUrl : r.url = none) : r.IsAt r.ownAddress

namespace Registry

variable {r : Registry} {a : RegistryAddress}

/-- The path of a registry is shown behind a slash, unless it is empty. -/
theorem shownPath_ownAddress (r : Registry) :
    r.ownAddress.shownPath =
      if r.trimmedPath = [] then "" else "/" ++ String.ofList r.trimmedPath := by
  have hTrimmed : dropTrailing (· == '/') r.trimmedPath = r.trimmedPath :=
    Text.dropTrailing_eq_self fun _ hc => Text.getLast?_dropTrailing (p := (· == '/')) hc
  have hPath : ("/" ++ String.ofList r.trimmedPath).toList = '/' :: r.trimmedPath := by simp
  rw [RegistryAddress.shownPath, RegistryAddress.pathText, ownAddress, Option.map_some,
    Option.getD_some, hPath, Text.dropTrailing_cons_of_pos (by rfl), hTrimmed]
  split
  · rfl
  · rw [← hPath, String.ofList_toList]

theorem IsAt.pushAddress_eq (h : r.IsAt a) : r.pushAddress = a.text := by
  cases h with
  | given hUrl hHost hNonempty =>
    have hLast : ∀ c, (a.schemeText ++ a.server).toList.getLast? = some c → (c == '/') = false := by
      intro c hc
      have := a.getLast?_front hHost hNonempty
      rw [hc] at this
      simpa using this
    rw [pushAddress, hUrl]
    apply String.toList_inj.1
    show (String.ofList (dropTrailing (· == '/') a.written.toList)).toList = a.text.toList
    rw [RegistryAddress.text, String.toList_append, RegistryAddress.shownPath,
      String.toList_ofList, String.toList_ofList, RegistryAddress.written, String.toList_append]
    exact Text.dropTrailing_append_of_getLast? hLast a.pathText.toList
  | composed hUrl =>
    have hText : r.ownAddress.text =
        r.host ++ ":" ++ Number.decimal r.port ++ r.ownAddress.shownPath := by
      simp [RegistryAddress.text, RegistryAddress.schemeText, RegistryAddress.server,
        RegistryAddress.portText, ownAddress, String.append_assoc]
    rw [pushAddress, hUrl, hText, r.shownPath_ownAddress]
    cases r.trimmedPath with
    | nil => simp
    | cons c cs => simp [String.append_assoc]

/-- Without a scheme the address for pulling has another host exactly when its host is one. -/
theorem IsAt.pullAddress_eq_iff (c : ClusterKind) (h : r.IsAt a) :
    r.pullAddress (some c) = (a.withHost c.registryHost).text ↔
      a.scheme = none ∧ IsHostName a.host.toList := by
  have hPull : (r.pullAddress (some c)).toList =
      replaceHost a.text.toList c.registryHost.toList := by
    rw [pullAddress, String.toList_ofList, h.pushAddress_eq]
  rw [← String.toList_inj, hPull]
  cases hScheme : a.scheme with
  | none =>
    have hText (host : String) : (a.withHost host).text.toList =
        host.toList ++ (a.portText ++ a.shownPath).toList := by
      simp [RegistryAddress.text, RegistryAddress.schemeText, hScheme, RegistryAddress.server,
        RegistryAddress.withHost, RegistryAddress.portText, RegistryAddress.shownPath,
        RegistryAddress.pathText]
    have hOwn : a.text.toList = a.host.toList ++ (a.portText ++ a.shownPath).toList := hText a.host
    rw [hText, hOwn, replaceHost_append_iff a.endsHost_tail, eq_self, true_and]
  | some scheme =>
    refine iff_of_false (fun hEq => ?_) (fun hNone => by simp at hNone)
    -- The name of no cluster's registry begins as a scheme does.
    have hOther : (a.withHost c.registryHost).text.toList =
        scheme.text.toList ++ ((a.withHost c.registryHost).server ++ a.shownPath).toList := by
      simp [RegistryAddress.text, RegistryAddress.schemeText, hScheme, RegistryAddress.withHost,
        RegistryAddress.shownPath, RegistryAddress.pathText]
    rw [replaceHost_eq, hOther] at hEq
    have hStart := congrArg (List.take 2) hEq
    have hLength : 2 ≤ c.registryHost.toList.length := by cases c <;> decide
    have hText : 2 ≤ scheme.text.toList.length := by cases scheme <;> decide
    rw [List.take_append_of_le_length hLength, List.take_append_of_le_length hText] at hStart
    revert hStart
    cases c <;> cases scheme <;> decide

/-- A registry is pushed to at its address. The address for pulling is that address with the name
of the cluster's registry for its host, and the server behind it that name with the same port,
exactly when the address has no scheme and its host holds no slash and no colon. -/
theorem pullAddress_follows_iff (c : ClusterKind) (h : r.IsAt a) :
    r.pushAddress = a.text ∧
      (IsHostName a.host.toList → registryServer r.pushAddress = a.server) ∧
      ((r.pullAddress (some c) = (a.withHost c.registryHost).text ∧
          registryServer (r.pullAddress (some c)) = (a.withHost c.registryHost).server) ↔
        a.scheme = none ∧ IsHostName a.host.toList) := by
  refine ⟨h.pushAddress_eq, fun hHost => ?_, ?_⟩
  · rw [h.pushAddress_eq, RegistryAddress.registryServer_text hHost]
  · rw [h.pullAddress_eq_iff c, and_iff_left_iff_imp]
    intro hPlain
    have hName : IsHostName c.registryHost.toList := by cases c <;> decide
    rw [(h.pullAddress_eq_iff c).2 hPlain]
    exact RegistryAddress.registryServer_text (a := a.withHost c.registryHost) hName

/-- An address on the own host with a path, under a scheme or without one. -/
def teamAddress (scheme : Option Scheme) : RegistryAddress :=
  ⟨scheme, "localhost", some "5000", some "team", by decide⟩

theorem pullAddress_follows_teamAddress :
    let r : Registry := { Registry.standard with url := some "localhost:5000/team" }
    r.IsAt (teamAddress none) ∧
      (r.pushAddress = (teamAddress none).text ∧
        (IsHostName (teamAddress none).host.toList →
          registryServer r.pushAddress = (teamAddress none).server) ∧
        ((r.pullAddress (some .docker) = ((teamAddress none).withHost "host.docker.internal").text ∧
            registryServer (r.pullAddress (some .docker)) =
              ((teamAddress none).withHost "host.docker.internal").server) ↔
          (teamAddress none).scheme = none ∧ IsHostName (teamAddress none).host.toList)) := by
  intro r
  have hAt : r.IsAt (teamAddress none) := .given (by decide) (by decide) (by decide)
  exact ⟨hAt, pullAddress_follows_iff .docker hAt⟩

/-- Where there is a scheme, it is what gives way to the name of the cluster's registry, and the
server of what comes out has an empty port. -/
theorem not_pullAddress_follows_of_scheme :
    let r : Registry := { Registry.standard with url := some "http://localhost:5000/team" }
    let pulled := (teamAddress (some .http)).withHost "host.docker.internal"
    r.IsAt (teamAddress (some .http)) ∧
      r.pullAddress (some .docker) = "host.docker.internal://localhost:5000/team" ∧
      r.pullAddress (some .docker) ≠ pulled.text ∧
      registryServer (r.pullAddress (some .docker)) = "host.docker.internal:" ∧
      registryServer (r.pullAddress (some .docker)) ≠ pulled.server := by
  intro r pulled
  have hAt : r.IsAt (teamAddress (some .http)) := .given (by decide) (by decide) (by decide)
  have hPull : r.pullAddress (some .docker) = "host.docker.internal://localhost:5000/team" := by
    decide
  have hServer : registryServer "host.docker.internal://localhost:5000/team" =
      "host.docker.internal:" := by
    rw [← String.toList_inj, toList_registryServer (by decide)]
    decide
  rw [hPull, hServer]
  exact ⟨hAt, rfl, by decide, rfl, by decide⟩

end Registry

end KubeCompose
