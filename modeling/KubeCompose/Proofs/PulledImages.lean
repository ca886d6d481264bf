import KubeCompose.Proofs.Image
import KubeCompose.Push

/-!
# What is pushed and what is pulled

Images are pushed to one address of the registry and pulled from another: a local cluster reaches
the host by a name of its own. `pulled_rest_eq_pushed_iff` says for which images the two references
agree behind the address. A reference that the project already gives under the address for pushing
stays where it is, but its manifests name a place that no image was pushed to.
-/

namespace KubeCompose

open Compose (Service)
open Text (cutAt? dropTrailing)

/-! ### Replacing the host -/

/-- A character that does not end a host. -/
def isHostChar (c : Char) : Bool := c != ':' && c != '/'

/-- A text without slashes and colons. -/
def IsHostName (host : List Char) : Prop := '/' ∉ host ∧ ':' ∉ host

instance (host : List Char) : Decidable (IsHostName host) := inferInstanceAs (Decidable (_ ∧ _))

/-- What can stand behind a host: nothing, a port or a path. -/
def EndsHost (tail : List Char) : Prop := tail.dropWhile isHostChar = tail

section HostName

variable {host tail : List Char}

theorem isHostName_iff : IsHostName host ↔ host.dropWhile isHostChar = [] := by
  rw [List.dropWhile_eq_nil_iff]
  constructor
  · intro h c hc
    have hColon : c ≠ ':' := fun e => h.2 (e ▸ hc)
    have hSlash : c ≠ '/' := fun e => h.1 (e ▸ hc)
    simp [isHostChar, hColon, hSlash]
  · intro h
    exact ⟨fun hc => absurd (h _ hc) (by decide), fun hc => absurd (h _ hc) (by decide)⟩

theorem endsHost_colon (cs : List Char) : EndsHost (':' :: cs) := rfl

theorem endsHost_slash (cs : List Char) : EndsHost ('/' :: cs) := rfl

/-- What stands behind a host can be told from it. -/
theorem IsHostName.dropWhile_append (hHost : IsHostName host) (hTail : EndsHost tail) :
    (host ++ tail).dropWhile isHostChar = tail := by
  rw [List.dropWhile_append, isHostName_iff.1 hHost]
  exact hTail

/-- In front of the first slash a host ends at the first colon, if anywhere. -/
theorem dropWhile_authority {authority rest : List Char} (hSlash : '/' ∉ authority)
    (hRest : EndsHost rest) :
    (authority ++ rest).dropWhile isHostChar =
      ((cutAt? ':' authority).map fun parts => ':' :: parts.2).getD [] ++ rest := by
  cases hCut : cutAt? ':' authority with
  | none =>
    have hHost : IsHostName authority := ⟨hSlash, Text.cutAt?_eq_none_iff.1 hCut⟩
    rw [hHost.dropWhile_append hRest, Option.map_none, Option.getD_none, List.nil_append]
  | some parts =>
    obtain ⟨host, port⟩ := parts
    obtain ⟨rfl, hColon⟩ := Text.eq_append_of_cutAt? hCut
    have hHost : IsHostName host := ⟨fun h => hSlash (List.mem_append_left _ h), hColon⟩
    rw [List.append_assoc, List.cons_append, hHost.dropWhile_append (endsHost_colon _)]
    rfl

/-- What is replaced reaches to the first colon or slash. -/
theorem replaceHost_eq (address other : List Char) :
    replaceHost address other = other ++ address.dropWhile isHostChar := by
  unfold replaceHost
  cases hCut : cutAt? '/' address with
  | none =>
    have h := dropWhile_authority (Text.cutAt?_eq_none_iff.1 hCut) (rfl : EndsHost [])
    rw [List.append_nil] at h
    rw [h]
    dsimp only
    cases cutAt? ':' address <;> simp
  | some parts =>
    obtain ⟨authority, rest⟩ := parts
    obtain ⟨rfl, hSlash⟩ := Text.eq_append_of_cutAt? hCut
    rw [dropWhile_authority hSlash (endsHost_slash rest)]
    dsimp only
    cases cutAt? ':' authority <;> simp

/-- In front of a port or a path a text is replaced exactly when it is a host. -/
theorem replaceHost_append_iff (hTail : EndsHost tail) {other : List Char} :
    replaceHost (host ++ tail) other = other ++ tail ↔ IsHostName host := by
  rw [replaceHost_eq, List.append_cancel_left_eq, isHostName_iff, List.dropWhile_append]
  split
  · rename_i hNil
    rw [hTail]
    exact iff_of_true rfl (List.isEmpty_iff.1 hNil)
  · rw [List.append_left_eq_self]

end HostName

/-! ### Addresses do not end in a slash -/

/-- The last character of a text is that of its second part, unless that part is empty. -/
theorem ne_slash_of_getLast?_append {before after : List Char}
    (hBefore : after = [] → before.getLast? ≠ some '/') (hAfter : after.getLast? ≠ some '/') :
    (before ++ after).getLast? ≠ some '/' := by
  intro h
  rw [List.getLast?_append] at h
  cases after with
  | nil => exact hBefore rfl (by simpa using h)
  | cons c r =>
    rw [List.getLast?_eq_some_getLast (List.cons_ne_nil c r)] at h hAfter
    exact hAfter h

theorem slash_not_mem_decimal (n : Nat) : '/' ∉ (Number.decimal n).toList := by
  intro h
  have hMem : '/' ∈ Nat.toDigits 10 n := by simpa [Number.decimal] using h
  exact absurd (Nat.isDigit_of_mem_toDigits (by decide) (by decide) hMem) (by decide)

theorem getLast?_decimal (n : Nat) : (Number.decimal n).toList.getLast? ≠ some '/' :=
  fun h => slash_not_mem_decimal n (List.mem_of_getLast? h)

theorem Registry.getLast?_pushAddress (r : Registry) :
    r.pushAddress.toList.getLast? ≠ some '/' := by
  unfold Registry.pushAddress
  split
  · intro h
    rw [String.toList_ofList] at h
    simpa using Text.getLast?_dropTrailing h
  · have hBase : (r.host ++ ":" ++ Number.decimal r.port).toList.getLast? ≠ some '/' := by
      rw [String.toList_append]
      exact ne_slash_of_getLast?_append (fun _ => by simp) (getLast?_decimal r.port)
    simp only
    split
    · exact hBase
    · rename_i path hFull
      rw [String.toList_append]
      refine ne_slash_of_getLast?_append (fun e => ?_) fun h => ?_
      · exact (hFull (by simpa using e)).elim
      · rw [String.toList_ofList] at h
        simpa using Text.getLast?_dropTrailing h

/-- The host is all that changes, so that the end of an address stays as it is. -/
theorem getLast?_replaceHost {address host : List Char} (hHost : '/' ∉ host)
    (hEnd : address.getLast? ≠ some '/') : (replaceHost address host).getLast? ≠ some '/' := by
  rw [replaceHost_eq]
  refine ne_slash_of_getLast?_append (fun _ h => hHost (List.mem_of_getLast? h)) fun h => ?_
  obtain ⟨front, hFront⟩ : address.dropWhile isHostChar <:+ address :=
    List.dropWhile_suffix isHostChar
  rw [← hFront, List.getLast?_append, h] at hEnd
  exact hEnd rfl

theorem replaceHost_ne_nil {address host : List Char} (hHost : host ≠ []) :
    replaceHost address host ≠ [] := by
  rw [replaceHost_eq]
  exact List.append_ne_nil_of_left_ne_nil hHost _

theorem ClusterKind.slash_not_mem_registryHost (c : ClusterKind) :
    '/' ∉ c.registryHost.toList := by
  cases c <;> decide

theorem ClusterKind.registryHost_ne_nil (c : ClusterKind) : c.registryHost.toList ≠ [] := by
  cases c <;> decide

theorem Registry.getLast?_pullAddress (r : Registry) (cluster : Option ClusterKind) :
    (r.pullAddress cluster).toList.getLast? ≠ some '/' := by
  cases cluster with
  | none => exact r.getLast?_pushAddress
  | some c =>
    rw [Registry.pullAddress, String.toList_ofList]
    exact getLast?_replaceHost c.slash_not_mem_registryHost r.getLast?_pushAddress

theorem Registry.pullAddress_ne_empty {r : Registry} {cluster : Option ClusterKind}
    (h : r.pushAddress ≠ "") : r.pullAddress cluster ≠ "" := by
  cases cluster with
  | none => exact h
  | some c =>
    rw [Registry.pullAddress, ne_eq, String.ofList_eq_empty_iff]
    exact replaceHost_ne_nil c.registryHost_ne_nil

/-! ### The place of an image behind the two addresses -/

/-- The name of a pushed image and the one that pods pull agree behind their addresses exactly when
the addresses are one, or the image of the service stands under neither of them. -/
theorem pulled_rest_eq_pushed_iff {settings : Settings} {push pull : String} {o : PushOptions}
    {c : ConvertOptions} (s : Service) (hPush : settings.pushRegistry? = some push)
    (hPull : settings.pullRegistry? = some pull) (hNonempty : push ≠ "")
    (hTo : o.registry = push) (hFrom : c.registry = some pull) (hTag : o.tag = c.tag) :
    (∃ rest, o.targetImage s = push ++ "/" ++ rest ∧ c.imageFor s = pull ++ "/" ++ rest) ↔
      push = pull ∨ (¬ Image.IsUnder push (s.effectiveImage c.tag) ∧
        ¬ Image.IsUnder pull (s.effectiveImage c.tag)) := by
  have hEnabled : settings.registry.enabled = true := by
    cases h : settings.registry.enabled with
    | true => rfl
    | false => simp [Settings.pushRegistry?, h] at hPush
  simp only [Settings.pushRegistry?, hEnabled, if_true, Option.some.injEq] at hPush
  simp only [Settings.pullRegistry?, hEnabled, if_true, Option.some.injEq] at hPull
  subst hPush hPull
  have hTarget : o.targetImage s =
      Image.inRegistry (s.effectiveImage c.tag) settings.registry.pushAddress := by
    rw [PushOptions.targetImage, hTo, hTag]
  have hImage : c.imageFor s = Image.inRegistry (s.effectiveImage c.tag)
      (settings.registry.pullAddress settings.cluster.kind) := by
    simp [ConvertOptions.imageFor, hFrom]
  rw [hTarget, hImage]
  exact Image.common_rest_iff settings.registry.getLast?_pushAddress hNonempty
    (settings.registry.getLast?_pullAddress settings.cluster.kind)
    (Registry.pullAddress_ne_empty hNonempty)

/-- Settings with a registry on the host of a local cluster. -/
def besideCluster : Settings :=
  let s := Settings.standard.withRegistryUrl "localhost:5000"
  { s with cluster := { s.cluster with kind := some .docker } }

/-- An image of the project itself has one place behind the two addresses. -/
theorem pulled_rest_eq_pushed_beside_cluster :
    besideCluster.pushRegistry? = some "localhost:5000" ∧
      besideCluster.pullRegistry? = some "host.docker.internal:5000" ∧
      ∃ rest, (PushOptions.mk "localhost:5000" "v1" false none).targetImage (.empty "api") =
          "localhost:5000" ++ "/" ++ rest ∧
        (ConvertOptions.mk "shop" (some "host.docker.internal:5000") "v1" []).imageFor
          (.empty "api") = "host.docker.internal:5000" ++ "/" ++ rest := by
  have hPush : besideCluster.pushRegistry? = some "localhost:5000" := by decide
  have hPull : besideCluster.pullRegistry? = some "host.docker.internal:5000" := by decide
  have hIff := pulled_rest_eq_pushed_iff (o := ⟨"localhost:5000", "v1", false, none⟩)
    (c := ⟨"shop", some "host.docker.internal:5000", "v1", []⟩) (.empty "api") hPush hPull
    (by decide) rfl rfl rfl
  exact ⟨hPush, hPull, hIff.2 (.inr (by decide))⟩

/-- An image that the project gives under the address for pushing is not pushed again, and the
address from which it is pulled has it in another place. -/
theorem pulled_rest_ne_pushed_of_held :
    ¬ ∃ rest,
      (PushOptions.mk "localhost:5000" "latest" false none).targetImage
          { Service.empty "web" with image := some "localhost:5000/app:v1" } =
        "localhost:5000" ++ "/" ++ rest ∧
      (ConvertOptions.mk "default" besideCluster.pullRegistry? "latest" []).imageFor
          { Service.empty "web" with image := some "localhost:5000/app:v1" } =
        "host.docker.internal:5000" ++ "/" ++ rest := by
  rintro ⟨rest, hPushed, hPulled⟩
  have hTarget : (PushOptions.mk "localhost:5000" "latest" false none).targetImage
      { Service.empty "web" with image := some "localhost:5000/app:v1" } =
        "localhost:5000" ++ "/" ++ "app:v1" := by decide
  have hImage : (ConvertOptions.mk "default" besideCluster.pullRegistry? "latest" []).imageFor
      { Service.empty "web" with image := some "localhost:5000/app:v1" } =
        "host.docker.internal:5000" ++ "/" ++ "localhost-5000-app:v1" := by decide
  rw [hTarget, String.append_right_inj] at hPushed
  rw [hImage, String.append_right_inj, ← hPushed] at hPulled
  exact absurd hPulled (by decide)

end KubeCompose
