import KubeCompose.Proofs.Folder

/-!
# The first round of a revision

In the first round every manifest of a directory is read and stored again, a deployment that is to
run on every node under the name of its daemon set. That name comes before the name of the
deployment, so that in the order of the names no file is written to before its turn, and what the
round leaves under a name is known from what stood there at the start.
-/

namespace KubeCompose

open KubeCompose.Path (IsName child withFileName)

/-! ### Reading from a folder -/

/-- The bytes of the file under a name. -/
def Folder.read (f : Folder) (name : String) : Except FileError ByteArray :=
  match f name with
  | some (.file content _) => .ok content
  | some _ => .error .isDirectory
  | none => .error .notFound

namespace Manifest.Revision

variable {o : Revision} {f g : Folder} {m n k name directory : String} {names : List String}
  {text : String} {problem : Problem}

/-! ### Names of daemon sets -/

/-- The name of the file of a daemon set that takes the place of a deployment's file. -/
def daemonName? (o : Revision) (name : String) : Option String :=
  match Text.dropEnd? "-deployment.yaml".toList name.toList with
  | none => none
  | some stem =>
    if o.isDaemon (String.ofList stem) then some (String.ofList stem ++ "-daemonset.yaml") else none

/-- The name under which a manifest is stored. -/
def destination (o : Revision) (name : String) : String := (o.daemonName? name).getD name

theorem daemonName?_eq_some {target : String} (h : o.daemonName? name = some target) :
    ∃ stem, name = stem ++ "-deployment.yaml" ∧ target = stem ++ "-daemonset.yaml" ∧
      o.isDaemon stem = true := by
  rw [daemonName?] at h
  cases hDrop : Text.dropEnd? "-deployment.yaml".toList name.toList with
  | none =>
    rw [hDrop] at h
    exact absurd h (by simp)
  | some stem =>
    rw [hDrop] at h
    simp only at h
    split at h
    · rename_i hDaemon
      refine ⟨String.ofList stem, ?_, (Option.some.inj h).symm, hDaemon⟩
      rw [← String.toList_inj, Text.eq_append_of_dropEnd? hDrop]
      simp
    · simp at h

/-- Without services for every node no deployment has a daemon set. -/
theorem isDaemon_of_nil (h : o.daemonServices = []) (stem : String) : o.isDaemon stem = false := by
  rw [isDaemon, h]
  rfl

theorem daemonName?_of_nil (h : o.daemonServices = []) : o.daemonName? name = none := by
  rw [daemonName?]
  split
  · rfl
  · simp [isDaemon_of_nil h]

/-- A name is its own destination, or that of a deployment has the destination of its daemon set. -/
theorem destination_cases (o : Revision) (name : String) :
    (o.daemonName? name = none ∧ o.destination name = name) ∨
      ∃ stem, name = stem ++ "-deployment.yaml" ∧ o.isDaemon stem = true ∧
        o.daemonName? name = some (o.destination name) ∧
        o.destination name = stem ++ "-daemonset.yaml" := by
  rw [destination]
  cases h : o.daemonName? name with
  | none => exact .inl ⟨rfl, rfl⟩
  | some target =>
    obtain ⟨stem, hName, hTarget, hDaemon⟩ := daemonName?_eq_some h
    exact .inr ⟨stem, hName, hDaemon, rfl, hTarget⟩

theorem deployment_ne_daemonSet (a b : String) :
    a ++ "-deployment.yaml" ≠ b ++ "-daemonset.yaml" := by
  have hDeployment : Text.cutAtLast? '-' (a ++ "-deployment.yaml").toList =
      some (a.toList, "deployment.yaml".toList) := by
    rw [String.toList_append]
    exact Text.cutAtLast?_append a.toList (by decide)
  have hDaemonSet : Text.cutAtLast? '-' (b ++ "-daemonset.yaml").toList =
      some (b.toList, "daemonset.yaml".toList) := by
    rw [String.toList_append]
    exact Text.cutAtLast?_append b.toList (by decide)
  intro hEq
  rw [hEq, hDaemonSet, Option.some.injEq, Prod.mk.injEq] at hDeployment
  exact absurd hDeployment.2 (by decide)

/-- The name of a daemon set comes before that of its deployment. -/
theorem daemonSet_lt_deployment (stem : String) :
    stem ++ "-daemonset.yaml" < stem ++ "-deployment.yaml" := by
  have hTails : "-daemonset.yaml".toList < "-deployment.yaml".toList := by decide
  rw [String.lt_iff_toList_lt, String.toList_append, String.toList_append]
  exact List.append_left_lt hTails

theorem destination_le (o : Revision) (name : String) : o.destination name ≤ name := by
  rcases o.destination_cases name with ⟨-, hSame⟩ | ⟨stem, hName, -, -, hDaemon⟩
  · exact le_of_eq hSame
  · rw [hDaemon, hName]
    exact le_of_lt (daemonSet_lt_deployment stem)

/-- What is a destination of some name is its own destination. -/
theorem destination_destination (o : Revision) (name : String) :
    o.destination (o.destination name) = o.destination name := by
  rcases o.destination_cases name with ⟨-, hSame⟩ | ⟨stem, -, -, -, hDaemon⟩
  · rw [hSame, hSame]
  · rcases o.destination_cases (o.destination name) with ⟨-, hSame⟩ | ⟨other, hName, -, -, -⟩
    · exact hSame
    · rw [hDaemon] at hName
      exact absurd hName.symm (deployment_ne_daemonSet other stem)

/-- Of two names with one destination, one is that destination, or they are the same. -/
theorem destination_inj (h : o.destination m = o.destination n) (hm : o.destination m ≠ m)
    (hn : o.destination n ≠ n) : m = n := by
  rcases o.destination_cases m with ⟨-, hSame⟩ | ⟨stem, hName, -, -, hDaemon⟩
  · exact absurd hSame hm
  · rcases o.destination_cases n with ⟨-, hSame⟩ | ⟨other, hOther, -, -, hDaemon'⟩
    · exact absurd hSame hn
    · rw [hDaemon, hDaemon', String.append_left_inj] at h
      rw [hName, hOther, h]

theorem utf8ByteSize_destination (o : Revision) (name : String) :
    (o.destination name).utf8ByteSize ≤ name.utf8ByteSize := by
  rcases o.destination_cases name with ⟨-, hSame⟩ | ⟨stem, hName, -, -, hDaemon⟩
  · rw [hSame]
  · have hTails : "-daemonset.yaml".utf8ByteSize ≤ "-deployment.yaml".utf8ByteSize := by decide
    rw [hDaemon, hName, String.utf8ByteSize_append, String.utf8ByteSize_append]
    omega

/-- The daemon set of a deployment has a name that can be given, too. -/
theorem isName_destination (hName : IsName name) : IsName (o.destination name) := by
  rcases o.destination_cases name with ⟨-, hSame⟩ | ⟨stem, hStem, -, -, hDaemon⟩
  · rwa [hSame]
  · have hChar : ∀ c, c ∈ (o.destination name).toList → c ∈ name.toList ∨
        c ∈ "-daemonset.yaml".toList := by
      intro c hc
      rw [hDaemon, String.toList_append, List.mem_append] at hc
      rw [hStem, String.toList_append, List.mem_append]
      exact hc.imp_left .inl
    have hLast : 'y' ∈ (o.destination name).toList := by
      rw [hDaemon, String.toList_append]
      exact List.mem_append_right _ (by decide)
    have hNe : ∀ s : String, 'y' ∉ s.toList → o.destination name ≠ s := by
      intro s hs hEq
      exact hs (hEq ▸ hLast)
    refine ⟨fun hMem => ?_, fun hMem => ?_, ?_, hNe _ (by decide), ?_⟩
    · exact (hChar _ hMem).elim hName.noSlash (by decide)
    · exact (hChar _ hMem).elim hName.noNul (by decide)
    · simp [Path.isIdle, hNe "" (by decide), hNe "." (by decide)]
    · exact Nat.le_trans (o.utf8ByteSize_destination name) hName.short

/-! ### What is stored -/

/-- The documents of a manifest after a revision. -/
def transformed (o : Revision) (name : String) (documents : List Yaml) : List Yaml :=
  let documents := documents.map o.revised
  if (o.daemonName? name).isSome then documents.map Revise.toDaemonSet else documents

/-- The text that a revision makes of the bytes of a manifest. -/
def rewritten (o : Revision) (name : String) (bytes : ByteArray) : Except Problem String :=
  match String.fromUTF8? bytes with
  | none => .error (.unreadable .notText)
  | some text =>
    match parseDocuments text with
    | .error e => .error (.notDocuments e)
    | .ok documents =>
      match writeDocuments (o.transformed name documents) with
      | .error e => .error (.notWritable e)
      | .ok text => .ok text

/-- The text that is stored for the manifest under a name. -/
def stored (o : Revision) (f : Folder) (name : String) : Except Problem String :=
  match f.read name with
  | .error e => .error (.unreadable e)
  | .ok bytes =>
    match o.rewritten name bytes with
    | .error problem => .error problem
    | .ok text =>
      if f.hasDirectory (o.destination name) then .error (.unwritable .isDirectory) else .ok text

/-- A folder in which the manifest under a name has been revised. -/
def reviseIn (o : Revision) (f : Folder) (name : String) : Folder :=
  match o.stored f name with
  | .error _ => f
  | .ok text =>
    Function.update (Function.update f name none) (o.destination name)
      (some (.file text.toUTF8 (f.isExecutable (o.destination name))))

theorem reviseIn_of_error (h : o.stored f name = .error problem) : o.reviseIn f name = f := by
  rw [reviseIn, h]

theorem reviseIn_of_ok (h : o.stored f name = .ok text) :
    o.reviseIn f name = Function.update (Function.update f name none) (o.destination name)
      (some (.file text.toUTF8 (f.isExecutable (o.destination name)))) := by
  rw [reviseIn, h]

/-- What is stored is read from a file, and not put where a directory stands. -/
theorem of_stored_eq_ok (h : o.stored f name = .ok text) :
    (∃ bytes executable, f name = some (.file bytes executable) ∧
      o.rewritten name bytes = .ok text) ∧ f.hasDirectory (o.destination name) = false := by
  rw [stored, Folder.read] at h
  cases hEntry : f name with
  | none => simp [hEntry] at h
  | some entry =>
    cases entry with
    | directory => simp [hEntry] at h
    | link target => simp [hEntry] at h
    | file bytes executable =>
      simp only [hEntry] at h
      cases hText : o.rewritten name bytes with
      | error problem => simp [hText] at h
      | ok new =>
        simp only [hText] at h
        split at h
        · simp at h
        · rename_i hFree
          rw [Except.ok.injEq] at h
          exact ⟨⟨bytes, executable, rfl, by rw [hText, h]⟩, by simpa using hFree⟩

/-- A text for which nothing is stored has the place of a directory. -/
theorem hasDirectory_of_stored_eq_error {bytes : ByteArray} {executable : Bool} {text : String}
    {problem : Problem} (hFile : f n = some (.file bytes executable))
    (hText : o.rewritten n bytes = .ok text) (hStored : o.stored f n = .error problem) :
    f.hasDirectory (o.destination n) = true := by
  by_contra hFree
  rw [stored, Folder.read, hFile] at hStored
  simp only [hText, if_neg hFree] at hStored
  exact absurd hStored (by simp)

theorem of_rewritten_eq_ok {bytes : ByteArray} {new : String}
    (h : o.rewritten n bytes = .ok new) :
    ∃ text documents, String.fromUTF8? bytes = some text ∧ parseDocuments text = .ok documents ∧
      writeDocuments (o.transformed n documents) = .ok new := by
  rw [rewritten] at h
  cases hText : String.fromUTF8? bytes with
  | none => simp [hText] at h
  | some text =>
    simp only [hText] at h
    cases hParse : parseDocuments text with
    | error e => simp [hParse] at h
    | ok documents =>
      simp only [hParse] at h
      cases hWrite : writeDocuments (o.transformed n documents) with
      | error e => simp [hWrite] at h
      | ok other =>
        simp only [hWrite, Except.ok.injEq] at h
        exact ⟨text, documents, rfl, hParse, by rw [hWrite, h]⟩

/-- A step is seen only under the name and its destination. -/
theorem reviseIn_of_ne (hName : k ≠ name) (hDestination : k ≠ o.destination name) :
    o.reviseIn f name k = f k := by
  cases hStored : o.stored f name with
  | error problem => rw [reviseIn_of_error hStored]
  | ok text =>
    rw [reviseIn_of_ok hStored, Function.update_of_ne hDestination, Function.update_of_ne hName]

/-- Directories stay where they are. -/
theorem hasDirectory_reviseIn (o : Revision) (f : Folder) (name k : String) :
    (o.reviseIn f name).hasDirectory k = f.hasDirectory k := by
  cases hStored : o.stored f name with
  | error problem => rw [reviseIn_of_error hStored]
  | ok text =>
    obtain ⟨⟨bytes, executable, hFile, -⟩, hFree⟩ := of_stored_eq_ok hStored
    rw [reviseIn_of_ok hStored]
    by_cases hDestination : k = o.destination name
    · rw [hDestination, hFree, Folder.hasDirectory, Function.update_self]
    · by_cases hName : k = name
      · rw [Folder.hasDirectory, Function.update_of_ne hDestination, hName, Function.update_self,
          Folder.hasDirectory, hFile]
      · rw [Folder.hasDirectory, Function.update_of_ne hDestination, Function.update_of_ne hName,
          Folder.hasDirectory]

/-- What is stored later is not changed by a step. -/
theorem stored_reviseIn (hLater : m < n) : o.stored (o.reviseIn f m) n = o.stored f n := by
  have hDestination : n ≠ o.destination m :=
    (lt_of_le_of_lt (o.destination_le m) hLater).ne'
  rw [stored, stored, Folder.read, Folder.read, reviseIn_of_ne hLater.ne' hDestination,
    hasDirectory_reviseIn]

/-- What a step leaves of its own file is known from that file, when it is stored in its place. -/
theorem reviseIn_self_congr {g : Folder} (hHere : g k = f k) (hStored : o.stored g k = o.stored f k)
    (hSelf : ∀ text, o.stored f k = .ok text → o.destination k = k) :
    o.reviseIn g k k = o.reviseIn f k k := by
  cases hText : o.stored f k with
  | error problem => rw [reviseIn_of_error (hStored.trans hText), reviseIn_of_error hText, hHere]
  | ok text =>
    rw [reviseIn_of_ok (hStored.trans hText), reviseIn_of_ok hText, hSelf text hText,
      Function.update_self, Function.update_self, Folder.isExecutable, hHere, Folder.isExecutable]

/-- A file that is stored in its place, or not at all, is there after its step. -/
theorem reviseIn_self_ne_none (hThere : f k ≠ none)
    (hSelf : ∀ text, o.stored f k = .ok text → o.destination k = k) :
    o.reviseIn f k k ≠ none := by
  cases hText : o.stored f k with
  | error problem => rwa [reviseIn_of_error hText]
  | ok text =>
    rw [reviseIn_of_ok hText, hSelf text hText, Function.update_self]
    simp

/-! ### The round -/

/-- What stands under a name stays as long as nothing is stored from it or to it. -/
theorem foldl_reviseIn_of_ne (hSorted : names.Pairwise (· < ·))
    (h : ∀ n ∈ names, ∀ text, o.stored f n = .ok text → k ≠ n ∧ k ≠ o.destination n) :
    names.foldl o.reviseIn f k = f k := by
  induction names generalizing f with
  | nil => rfl
  | cons m names ih =>
    obtain ⟨hHead, hRest⟩ := List.pairwise_cons.1 hSorted
    obtain ⟨hHere, hLater⟩ := List.forall_mem_cons.1 h
    rw [List.foldl_cons, ih hRest]
    · cases hStored : o.stored f m with
      | error problem => rw [reviseIn_of_error hStored]
      | ok text =>
        obtain ⟨hName, hDestination⟩ := hHere text hStored
        exact reviseIn_of_ne hName hDestination
    · intro n hn text hStored
      rw [stored_reviseIn (hHead n hn)] at hStored
      exact hLater n hn text hStored

/-- When every manifest is stored in its place, a round is a step for each of them. -/
theorem foldl_reviseIn_of_self {names : List String} (hSorted : names.Pairwise (· < ·))
    (hSelf : ∀ m ∈ names, ∀ text, o.stored f m = .ok text → o.destination m = m) (k : String) :
    names.foldl o.reviseIn f k = if k ∈ names then o.reviseIn f k k else f k := by
  induction names generalizing f with
  | nil => rfl
  | cons m names ih =>
    obtain ⟨hHead, hRest⟩ := List.pairwise_cons.1 hSorted
    obtain ⟨hHere, hLater⟩ := List.forall_mem_cons.1 hSelf
    have hStill : ∀ n ∈ names, ∀ text, o.stored (o.reviseIn f m) n = .ok text →
        o.destination n = n := by
      intro n hn text hText
      rw [stored_reviseIn (hHead n hn)] at hText
      exact hLater n hn text hText
    rw [List.foldl_cons, ih hRest hStill]
    by_cases hk : k ∈ names
    · have hLess := hHead k hk
      have hPlace : k ≠ o.destination m := (lt_of_le_of_lt (o.destination_le m) hLess).ne'
      rw [if_pos hk, if_pos (List.mem_cons_of_mem m hk)]
      exact reviseIn_self_congr (reviseIn_of_ne hLess.ne' hPlace) (stored_reviseIn hLess)
        (hLater k hk)
    · rw [if_neg hk]
      by_cases hSame : k = m
      · rw [hSame, if_pos (List.mem_cons_self ..)]
      · rw [if_neg (by simp [hSame, hk])]
        cases hStored : o.stored f m with
        | error problem => rw [reviseIn_of_error hStored]
        | ok text => exact reviseIn_of_ne hSame (by rwa [hHere text hStored])

theorem stored_foldl {before : List String} (h : ∀ m ∈ before, m < n) :
    o.stored (before.foldl o.reviseIn f) n = o.stored f n := by
  induction before generalizing f with
  | nil => rfl
  | cons m before ih =>
    obtain ⟨hHead, hRest⟩ := List.forall_mem_cons.1 h
    rw [List.foldl_cons, ih hRest, stored_reviseIn hHead]

/-- A manifest is overwritten when the daemon set of a later one is stored under its name. -/
def Overwritten (o : Revision) (f : Folder) (names : List String) (n : String) : Prop :=
  ∃ m ∈ names, m ≠ n ∧ o.destination m = n ∧ ∃ text, o.stored f m = .ok text

section Round

variable (hSorted : names.Pairwise (· < ·)) (hn : n ∈ names)
include hSorted hn

/-- What is stored for a manifest is found at its destination after the round, unless it is
overwritten. -/
theorem foldl_reviseIn_destination (hStored : o.stored f n = .ok text)
    (hKept : ¬ o.Overwritten f names n) :
    ∃ executable, names.foldl o.reviseIn f (o.destination n) =
      some (.file text.toUTF8 executable) := by
  obtain ⟨before, after, rfl⟩ := List.append_of_mem hn
  obtain ⟨-, hAfter, hOrder⟩ := List.pairwise_append.1 hSorted
  obtain ⟨hLater, hRest⟩ := List.pairwise_cons.1 hAfter
  have hBefore : ∀ m ∈ before, m < n := fun m hm => hOrder m hm n (List.mem_cons_self ..)
  rw [List.foldl_append, List.foldl_cons]
  have hHere : o.stored (before.foldl o.reviseIn f) n = .ok text := by
    rw [stored_foldl hBefore, hStored]
  refine ⟨(before.foldl o.reviseIn f).isExecutable (o.destination n), ?_⟩
  rw [foldl_reviseIn_of_ne hRest, reviseIn_of_ok hHere, Function.update_self]
  -- no later manifest is stored where this one is
  intro m hm other hOther
  have hLess := hLater m hm
  rw [stored_reviseIn hLess,
    stored_foldl fun b hb => hOrder b hb m (List.mem_cons_of_mem n hm)] at hOther
  refine ⟨(lt_of_le_of_lt (o.destination_le n) hLess).ne, fun hSame => ?_⟩
  by_cases hm' : o.destination m = m
  · rw [hm'] at hSame
    exact (lt_of_le_of_lt (o.destination_le n) hLess).ne hSame
  · by_cases hn' : o.destination n = n
    · refine hKept ⟨m, ?_, hLess.ne', by rw [← hSame, hn'], other, hOther⟩
      simp [hm]
    · exact hLess.ne (destination_inj hSame hn' hm')

/-- A manifest for which nothing is stored stays as it is, unless it is overwritten. -/
theorem foldl_reviseIn_of_error (hStored : o.stored f n = .error problem)
    (hKept : ¬ o.Overwritten f names n) : names.foldl o.reviseIn f n = f n := by
  refine foldl_reviseIn_of_ne hSorted fun m hm text hm' => ⟨?_, fun hSame => ?_⟩
  · rintro rfl
    simp [hStored] at hm'
  · refine hKept ⟨m, hm, ?_, hSame.symm, text, hm'⟩
    rintro rfl
    simp [hStored] at hm'

/-- A deployment is gone when its daemon set has been stored. -/
theorem foldl_reviseIn_of_daemonName (hStored : o.stored f n = .ok text)
    (hDaemon : o.destination n ≠ n) : names.foldl o.reviseIn f n = none := by
  obtain ⟨before, after, rfl⟩ := List.append_of_mem hn
  obtain ⟨-, hAfter, hOrder⟩ := List.pairwise_append.1 hSorted
  obtain ⟨hLater, hRest⟩ := List.pairwise_cons.1 hAfter
  have hHere : o.stored (before.foldl o.reviseIn f) n = .ok text := by
    rw [stored_foldl fun m hm => hOrder m hm n (List.mem_cons_self ..), hStored]
  rw [List.foldl_append, List.foldl_cons, foldl_reviseIn_of_ne hRest, reviseIn_of_ok hHere,
    Function.update_of_ne hDaemon.symm, Function.update_self]
  intro m hm other hOther
  refine ⟨(hLater m hm).ne, fun hSame => hDaemon ?_⟩
  rw [hSame, destination_destination]

end Round

end Manifest.Revision

end KubeCompose
