import KubeCompose.Engine.Rehearsal
import KubeCompose.Proofs.ImageReference
import KubeCompose.Proofs.PushProtocol

/-!
# The references under which images are pushed

The server of a login and the references of a push are both made of the address of the registry:
the server is what stands before its first slash, and a reference begins with the address, or is
one that does so already. So they name one server, unless the address begins with a scheme, which
only the server loses, or is none at all.

What follows the address is a name of one segment. Two images whose names differ in nothing but
their separators get one reference there, and so does an image whose new place another image of the
project stands at already; `targetImage_eq_iff` says that nothing else makes two references one.
-/

namespace KubeCompose

open Compose (Project Service)
open Text (cutAt? dropTrailing)

/-! ### What stands before a separator -/

namespace Text

variable {sep : Char}

/-- What stands before the first separator ends at any separator. -/
theorem before_append_cons (cs rest : List Char) :
    before sep (cs ++ sep :: rest) = before sep cs := by
  induction cs with
  | nil => simp [before]
  | cons c r ih =>
    simp only [before] at ih
    by_cases h : c = sep <;> simp [before, h, ih]

theorem before_append_of_forall_mem {cs tail : List Char} (h : ∀ c ∈ tail, c = sep) :
    before sep (cs ++ tail) = before sep cs := by
  cases tail with
  | nil => rw [List.append_nil]
  | cons c r => rw [h c (List.mem_cons_self ..), before_append_cons]

theorem dropStarts_eq_self {start cs : List Char} (h : ¬ start <+: cs) :
    dropStarts start cs = cs := by
  rw [dropStarts, dropStart?, if_neg]
  rwa [List.isPrefixOf_iff_prefix]

theorem dropStarts_append {start : List Char} (h : start ≠ []) (cs : List Char) :
    dropStarts start (start ++ cs) = dropStarts start cs := by
  have hShorter : cs.length < (start ++ cs).length := by
    have := List.length_pos_iff.2 h
    rw [List.length_append]
    omega
  have hDrop : dropStart? start (start ++ cs) = some cs := by
    rw [dropStart?, if_pos (List.isPrefixOf_iff_prefix.2 (List.prefix_append start cs)),
      List.drop_left]
  rw [dropStarts, hDrop]
  exact if_pos hShorter

end Text

/-! ### References begin with the address -/

namespace Image

/-- A reference in a registry has the first segment of the address. -/
theorem before_inRegistry {registry : String} (h : root registry ≠ "") (image : String) :
    Text.before '/' (inRegistry image registry).toList = Text.before '/' registry.toList := by
  obtain ⟨rest, hRest⟩ := isUnder_root h image
  obtain ⟨slashes, hSlashes, hAll⟩ := Text.exists_append_dropTrailing (· == '/') registry.toList
  have hReference : (inRegistry image registry).toList =
      registryRoot registry.toList ++ '/' :: rest.toList := by
    rw [hRest]
    simp
  rw [hReference, Text.before_append_cons, registryRoot,
    ← Text.before_append_of_forall_mem fun c hc => by simpa using hAll c hc, ← hSlashes]

end Image

/-! ### The server of a push -/

/-- An address begins with a scheme. -/
def HasScheme (address : String) : Prop :=
  "https://".toList <+: address.toList ∨ "http://".toList <+: address.toList

instance (address : String) : Decidable (HasScheme address) :=
  inferInstanceAs (Decidable (_ ∨ _))

theorem toList_registryServer {address : String} (h : ¬ HasScheme address) :
    (registryServer address).toList = Text.before '/' address.toList := by
  rw [HasScheme, not_or] at h
  rw [registryServer, Text.dropStarts_eq_self h.1, Text.dropStarts_eq_self h.2,
    String.toList_ofList]

/-- The server that a call names: the first segment of a reference that is pushed, and the server
to which one logs in or out. -/
def EngineCall.server? : EngineCall → Option String
  | .push image => some (String.ofList (Text.before '/' image.toList))
  | .login registry _ _ | .logout registry => some registry
  | _ => none

/-- A login or a logout at a server. -/
def EngineCall.IsSession (server : String) (c : EngineCall) : Prop :=
  (∃ user password, c = .login server user password) ∨ c = .logout server

theorem EngineCall.IsSession.server_eq {server : String} {c : EngineCall} (h : c.IsSession server) :
    c.server? = some server := by
  rcases h with ⟨user, password, rfl⟩ | rfl <;> rfl

theorem EngineCall.IsSession.ne_push {server : String} {c : EngineCall} (h : c.IsSession server)
    (image : String) : c ≠ .push image := by
  rcases h with ⟨user, password, rfl⟩ | rfl <;> simp

theorem InTurn.call_mem {calls : List EngineCall} {block : List Exchange} (h : InTurn calls block) :
    ∀ x ∈ block, x.call ∈ calls := by
  induction h with
  | done => simp
  | failed c rest cause => simp
  | @succeeded c rest block answer _ ih =>
    intro x hx
    rcases List.mem_cons.1 hx with rfl | hx
    · exact List.mem_cons_self ..
    · exact List.mem_cons_of_mem c (ih x hx)

/-- About a service no server is named but that of the reference under which its image is pushed. -/
theorem Block.server_of_mem {target : String} {isFile : String → Bool} {task : PushTask}
    {block : List Exchange} (h : Block target isFile task block) :
    ∀ x ∈ block, x.call = .push target ∨ x.call.server? = none := by
  cases h with
  | skipped reason => simp
  | missing context _ => simp
  | built _ hTurn =>
    intro x hx
    have := hTurn.call_mem x hx
    simp only [List.mem_cons, List.not_mem_nil, or_false] at this
    rcases this with h | h
    · exact .inr (by rw [h]; rfl)
    · exact .inl h
  | unanswered image cause => simp [EngineCall.server?]
  | present hTurn =>
    intro x hx
    rcases List.mem_cons.1 hx with rfl | hx
    · exact .inr rfl
    · have := hTurn.call_mem x hx
      simp only [List.mem_cons, List.not_mem_nil, or_false] at this
      rcases this with h | h
      · exact .inr (by rw [h]; rfl)
      · exact .inl h
  | fetched hTurn =>
    intro x hx
    rcases List.mem_cons.1 hx with rfl | hx
    · exact .inr rfl
    · have := hTurn.call_mem x hx
      simp only [List.mem_cons, List.not_mem_nil, or_false] at this
      rcases this with h | h | h
      · exact .inr (by rw [h]; rfl)
      · exact .inr (by rw [h]; rfl)
      · exact .inl h

theorem Rounds.server_of_mem {σ : Type} {e : Engine σ} {o : PushOptions} {p : Project} {s : σ}
    {services : List Service} {blocks : List (List Exchange)}
    {outcomes : List (String × PushOutcome)} (h : Rounds e o p s services blocks outcomes) :
    ∀ x ∈ blocks.flatten,
      (∃ service ∈ services, x.call = .push (o.targetImage service)) ∨ x.call.server? = none := by
  induction h with
  | nil s => simp
  | @cons s service block outcome rest blocks outcomes hRound _ ih =>
    intro x hx
    rw [List.flatten_cons, List.mem_append] at hx
    rcases hx with hx | hx
    · rcases hRound.shape.server_of_mem x hx with h | h
      · exact .inl ⟨service, List.mem_cons_self .., h⟩
      · exact .inr h
    · rcases ih x hx with ⟨other, hOther, h⟩ | h
      · exact .inl ⟨other, List.mem_cons_of_mem service hOther, h⟩
      · exact .inr h

namespace Engine

variable {σ : Type}

/-- What a push says to an engine is a login or a logout at the server of its address, or pushes the
image of a service under its reference, or names no server. -/
theorem call_of_mem_push (e : Engine σ) (o : PushOptions) (p : Project) (s : σ) :
    ∀ x ∈ (e.recorded.push o p (s, [])).2.2,
      x.call.IsSession (registryServer o.registry) ∨
        (∃ service ∈ p.services.map (·.2), x.call = .push (o.targetImage service)) ∨
          x.call.server? = none := by
  cases hUser : o.credentials with
  | none =>
    obtain ⟨blocks, hRounds, -, hRecord⟩ :=
      e.recorded_pushServices o p (p.services.map (·.2)) s []
    intro x hx
    simp only [push, hUser, hRecord, List.nil_append] at hx
    exact .inr (hRounds.server_of_mem x hx)
  | some credentials =>
    obtain ⟨user, password⟩ := credentials
    intro x hx
    rcases hLogin : e.call (.login (registryServer o.registry) user password) s with
      ⟨cause | answer, next⟩
    · simp only [push, hUser, recorded, hLogin, List.nil_append, List.mem_singleton] at hx
      exact .inl (.inl ⟨user, password, by rw [hx]⟩)
    · have hRecorded : e.recorded.call (.login (registryServer o.registry) user password)
          (s, []) = (.ok answer, next,
            [⟨.login (registryServer o.registry) user password, .ok answer⟩]) := by
        simp [recorded, hLogin]
      obtain ⟨blocks, hRounds, -, hRecord⟩ := e.recorded_pushServices o p
        (p.services.map (·.2)) next
        [⟨.login (registryServer o.registry) user password, .ok answer⟩]
      simp only [push, hUser, hRecorded, hRecord] at hx
      simp only [recorded, List.mem_append, List.mem_singleton] at hx
      rcases hx with (hx | hx) | hx
      · exact .inl (.inl ⟨user, password, by rw [hx]⟩)
      · exact .inr (hRounds.server_of_mem x hx)
      · exact .inl (.inr (by rw [hx]))

/-- For an address that begins with no scheme: unless it is nothing but slashes, every reference
that a push hands to its engine names the server to which it logs in and from which it logs out.
When it is nothing but slashes, that server has no name and the images are pushed under their own
references. -/
theorem server_eq_of_mem_push (e : Engine σ) (o : PushOptions) (p : Project) (s : σ)
    (hScheme : ¬ HasScheme o.registry) :
    (Image.root o.registry ≠ "" →
      ∀ x ∈ (e.recorded.push o p (s, [])).2.2, ∀ server, x.call.server? = some server →
        server = registryServer o.registry) ∧
    (Image.root o.registry = "" →
      registryServer o.registry = "" ∧
      ∀ x ∈ (e.recorded.push o p (s, [])).2.2, ∀ image, x.call = .push image →
        ∃ service ∈ p.services.map (·.2), image = service.effectiveImage o.tag) := by
  have hServer := toList_registryServer hScheme
  constructor
  · intro hRoot x hx server hCall
    rcases e.call_of_mem_push o p s x hx with h | ⟨service, -, h⟩ | h
    · exact Option.some.inj (hCall.symm.trans h.server_eq)
    · rw [h, EngineCall.server?, Option.some.injEq] at hCall
      rw [← hCall, ← String.toList_inj, String.toList_ofList, hServer, PushOptions.targetImage,
        Image.before_inRegistry hRoot]
    · simp [h] at hCall
  · intro hRoot
    refine ⟨?_, ?_⟩
    · obtain ⟨slashes, hSlashes, hAll⟩ :=
        Text.exists_append_dropTrailing (· == '/') o.registry.toList
      have hNil : dropTrailing (· == '/') o.registry.toList = [] := Image.root_eq_empty_iff.1 hRoot
      rw [← String.toList_inj, hServer, hSlashes, hNil,
        Text.before_append_of_forall_mem fun c hc => by simpa using hAll c hc]
      rfl
    · intro x hx image hCall
      rcases e.call_of_mem_push o p s x hx with h | ⟨service, hService, h⟩ | h
      · exact absurd hCall (h.ne_push image)
      · refine ⟨service, hService, ?_⟩
        rw [hCall, EngineCall.push.injEq] at h
        rw [h, PushOptions.targetImage, Image.inRegistry_of_root_eq_empty hRoot]
      · simp [hCall, EngineCall.server?] at h

end Engine

/-- A rehearsal with every Dockerfile and no image. -/
def Rehearsal.bare : Rehearsal := ⟨[], [], [], fun _ => true⟩

/-- A project of one service with an image of its own. -/
def nginxProject : Project :=
  ⟨"docker-compose.yml", [("web", { Service.empty "web" with image := some "nginx" })]⟩

theorem server_eq_of_mem_push_nginxProject :
    ¬ HasScheme "localhost:5000/team/" ∧
      (Image.root "localhost:5000/team/" ≠ "" →
        ∀ x ∈ (Rehearsal.engine.recorded.push
            ⟨"localhost:5000/team/", "latest", false, some ("ci", "secret")⟩ nginxProject
            (.bare, [])).2.2,
          ∀ server, x.call.server? = some server →
            server = registryServer "localhost:5000/team/") ∧
      Image.root "localhost:5000/team/" = "localhost:5000/team" := by
  have hScheme : ¬ HasScheme "localhost:5000/team/" := by decide
  exact ⟨hScheme, (Rehearsal.engine.server_eq_of_mem_push
    ⟨"localhost:5000/team/", "latest", false, some ("ci", "secret")⟩ nginxProject .bare hScheme).1,
    by decide⟩

/-- With an address that is empty one logs in to a server without a name, but the first segment of
the reference that is pushed has one. -/
theorem server_ne_of_no_address :
    ¬ ∀ x ∈ (Rehearsal.engine.recorded.push ⟨"", "latest", false, some ("ci", "secret")⟩
        nginxProject (.bare, [])).2.2,
      ∀ server, x.call.server? = some server → server = registryServer "" := by
  intro h
  have hPush : (⟨.push "nginx", .ok true⟩ : Exchange) ∈
      (Rehearsal.engine.recorded.push ⟨"", "latest", false, some ("ci", "secret")⟩
        nginxProject (.bare, [])).2.2 := by
    exact List.mem_of_getElem? (i := 4) rfl
  have hServer : registryServer "" = "" := by
    rw [← String.toList_inj, toList_registryServer (by decide)]
    rfl
  have hEq := h _ hPush "nginx" (by decide)
  rw [hServer] at hEq
  exact absurd hEq (by decide)

/-! ### Two images under one reference -/

namespace Image

/-- From the new place of an image its flattened name and what follows it can be told. -/
theorem newPlace_inj {a b : String} :
    newPlace a = newPlace b ↔
      flatten (split a.toList).1 = flatten (split b.toList).1 ∧
        (split a.toList).2 = (split b.toList).2 := by
  rw [newPlace, newPlace, String.ofList_inj]
  constructor
  · intro h
    have hA := (parts_split a.toList).flatten.split_eq
    have hB := (parts_split b.toList).flatten.split_eq
    rw [h, hB, Prod.mk.injEq] at hA
    exact ⟨hA.1.symm, hA.2.symm⟩
  · rintro ⟨hFlat, hSuffix⟩
    rw [hFlat, hSuffix]

/-- An image that a registry holds already, under the reference that another image gets there. -/
def TakesPlace (registry a b : String) : Prop :=
  ¬ IsUnder (root registry) b ∧ a = root registry ++ "/" ++ newPlace b

/-- Two images that are split in different ways get one reference in a registry exactly when there
is a registry, and either neither stands under its address and their names differ in separators
alone, or one stands already where the other gets its new place. -/
theorem inRegistry_eq_iff {a b registry : String} (hApart : split a.toList ≠ split b.toList) :
    inRegistry a registry = inRegistry b registry ↔
      root registry ≠ "" ∧
        ((¬ IsUnder (root registry) a ∧ ¬ IsUnder (root registry) b ∧
            flatten (split a.toList).1 = flatten (split b.toList).1 ∧
            (split a.toList).2 = (split b.toList).2) ∨
          TakesPlace registry a b ∨ TakesPlace registry b a) := by
  have hNe : a ≠ b := fun h => hApart (by rw [h])
  by_cases hRoot : root registry = ""
  · simp [inRegistry_of_root_eq_empty hRoot, hRoot, hNe]
  · have hEnd := getLast?_root registry
    rw [← inRegistry_root a, ← inRegistry_root b]
    by_cases hA : IsUnder (root registry) a <;> by_cases hB : IsUnder (root registry) b
    · simp [inRegistry_of_isUnder hEnd hA, inRegistry_of_isUnder hEnd hB, hA, hB, hNe, TakesPlace]
    · simp [inRegistry_of_isUnder hEnd hA, inRegistry_of_not_isUnder hEnd hRoot hB, hA, hB,
        hRoot, TakesPlace]
    · simp [inRegistry_of_isUnder hEnd hB, inRegistry_of_not_isUnder hEnd hRoot hA, hA, hB,
        hRoot, TakesPlace, eq_comm]
    · rw [inRegistry_of_not_isUnder hEnd hRoot hA, inRegistry_of_not_isUnder hEnd hRoot hB,
        String.append_right_inj, newPlace_inj]
      have hTakes : ∀ {x y : String}, ¬ IsUnder (root registry) x → ¬ TakesPlace registry x y :=
        fun hx h => hx ⟨_, h.2⟩
      simp [hA, hB, hRoot, hTakes hA, hTakes hB]

end Image

/-- Two services whose images are split in different ways have one reference for a push exactly when
there is a registry, and either neither image stands under its address and their names differ in
separators alone, or one stands already where the other gets its new place. -/
theorem targetImage_eq_iff (o : PushOptions) (a b : Service)
    (hApart : Image.split (a.effectiveImage o.tag).toList ≠
      Image.split (b.effectiveImage o.tag).toList) :
    o.targetImage a = o.targetImage b ↔
      Image.root o.registry ≠ "" ∧
        ((¬ Image.IsUnder (Image.root o.registry) (a.effectiveImage o.tag) ∧
            ¬ Image.IsUnder (Image.root o.registry) (b.effectiveImage o.tag) ∧
            Image.flatten (Image.split (a.effectiveImage o.tag).toList).1 =
              Image.flatten (Image.split (b.effectiveImage o.tag).toList).1 ∧
            (Image.split (a.effectiveImage o.tag).toList).2 =
              (Image.split (b.effectiveImage o.tag).toList).2) ∨
          Image.TakesPlace o.registry (a.effectiveImage o.tag) (b.effectiveImage o.tag) ∨
          Image.TakesPlace o.registry (b.effectiveImage o.tag) (a.effectiveImage o.tag)) :=
  Image.inRegistry_eq_iff hApart

/-- A service with an image whose name has two segments. -/
def teamApi : Service := { Service.empty "api" with image := some "team/app:v1" }

/-- A service with an image whose name has one segment. -/
def teamWeb : Service := { Service.empty "web" with image := some "team_app:v1" }

/-- The separators of their names are all that tells their images apart. -/
theorem targetImage_eq_iff_team :
    Image.split (teamApi.effectiveImage "latest").toList ≠
        Image.split (teamWeb.effectiveImage "latest").toList ∧
      (PushOptions.mk "localhost:5000" "latest" false none).targetImage teamApi =
        (PushOptions.mk "localhost:5000" "latest" false none).targetImage teamWeb := by
  have hApart : Image.split (teamApi.effectiveImage "latest").toList ≠
      Image.split (teamWeb.effectiveImage "latest").toList := by decide
  have hIff := targetImage_eq_iff ⟨"localhost:5000", "latest", false, none⟩ teamApi teamWeb hApart
  exact ⟨hApart, hIff.2 ⟨by decide, .inl (by decide)⟩⟩

/-- A push sends two images under one reference, the second in the place of the first. -/
theorem pushed_under_one_reference :
    (Rehearsal.engine.push ⟨"localhost:5000", "latest", false, none⟩
        ⟨"docker-compose.yml", [("api", teamApi), ("web", teamWeb)]⟩ .bare).1 =
      .ok ⟨"localhost:5000",
        [("api", .pushed "localhost:5000/team-app:v1"),
         ("web", .pushed "localhost:5000/team-app:v1")]⟩ ∧
    Image.split (teamApi.effectiveImage "latest").toList ≠
      Image.split (teamWeb.effectiveImage "latest").toList :=
  ⟨rfl, by decide⟩

end KubeCompose
