import KubeCompose.DotEnv
import KubeCompose.Proofs.NormalForm

/-!
# Aliases of containers and the names of their services

The name of a container before a colon stands for the service of that name. Its suffix `_ctr` is
taken off and put behind the normal form of the rest with a dash, whereas the name of the service is
the normal form of the whole. `expand_eq_name_iff` says for which containers the two agree: those
with a letter or a digit in front of the suffix, whose name with the suffix need not be cut.
-/

namespace KubeCompose

/-! ### Names with a suffix -/

namespace Name

/-- The runs of the name of a container: those in front of the suffix, and `ctr`. -/
theorem joined_append_suffix (id : List Char) :
    joined (id ++ "_ctr".toList) =
      if joined id = [] then "ctr".toList else joined id ++ "-ctr".toList := by
  have hRun : joined "ctr".toList = "ctr".toList := by decide
  have hAppend := joined_append_cons (c := '_') (by decide) id "ctr".toList
  have hFull : "ctr".toList ≠ [] := by decide
  rw [hRun, if_neg hFull] at hAppend
  exact hAppend

/-- The suffix can be put behind a normal form, in place of normalizing the name with it, when the
normal form is not empty and need not be cut then. -/
theorem append_suffix_eq_iff (id : List Char) :
    normalChars id ++ "-ctr".toList = normalChars (id ++ "_ctr".toList) ↔
      normalChars id ≠ [] ∧ (normalChars id ++ "-ctr".toList).length ≤ maxLength := by
  constructor
  · intro h
    have hNormal := isNormal_normalChars (id ++ "_ctr".toList)
    rw [← h] at hNormal
    refine ⟨?_, hNormal.short⟩
    intro hNil
    have hCollapsed := hNormal.collapsed
    rw [hNil] at hCollapsed
    exact absurd hCollapsed.2.1 (by simp)
  · rintro ⟨hNil, hLength⟩
    have hSuffix : "-ctr".toList.length = 4 := rfl
    rw [List.length_append, hSuffix] at hLength
    have hFits : (joined id).length ≤ maxLength := by
      by_contra hLong
      have := le_length_normalChars (Nat.lt_of_not_le hLong)
      omega
    have hSelf := normalChars_eq_joined hFits
    rw [hSelf] at hNil hLength
    have hJoined := joined_append_suffix id
    rw [if_neg hNil] at hJoined
    have hFits' : (joined (id ++ "_ctr".toList)).length ≤ maxLength := by
      rwa [hJoined, List.length_append]
    rw [hSelf, normalChars_eq_joined hFits', hJoined]

end Name

namespace Alias

/-- A run of name characters ends at a colon. -/
theorem takeWhile_append_colon {run : List Char} (hRun : ∀ c ∈ run, isNameChar c = true)
    (rest : List Char) : (run ++ ':' :: rest).takeWhile isNameChar = run := by
  rw [List.takeWhile_append_of_pos hRun, List.takeWhile_cons_of_neg (by decide), List.append_nil]

/-- A run of name characters before a colon is looked at as a whole. -/
theorem expandChars_run {run rest : List Char} (hNonempty : run ≠ [])
    (hRun : ∀ c ∈ run, isNameChar c = true) :
    expandChars (run ++ ':' :: rest) =
      (serviceName? run).getD run ++ ':' :: expandChars rest := by
  have hColon : isNameChar ':' = false := by decide
  cases run with
  | nil => exact absurd rfl hNonempty
  | cons c r =>
    obtain ⟨hc, hr⟩ := List.forall_mem_cons.1 hRun
    have hTake := takeWhile_append_colon hr rest
    have hDrop : (r ++ ':' :: rest).dropWhile isNameChar = ':' :: rest := by
      rw [List.dropWhile_append_of_pos hr, List.dropWhile_cons_of_neg (by simp [hColon])]
    have hBehind : expandChars (':' :: rest) = ':' :: expandChars rest := by
      rw [expandChars, hColon, if_neg Bool.false_ne_true]
    rw [List.cons_append, expandChars, if_pos hc, hTake, hDrop]
    simp only [List.head?_cons, if_true, hBehind]

/-- What stands in front of the suffix is normalized and gets it back with a dash. -/
theorem serviceName?_append {id : List Char} (h : id ≠ []) :
    serviceName? (id ++ "_ctr".toList) = some (Name.normalChars id ++ "-ctr".toList) := by
  obtain ⟨c, before, hReverse⟩ := List.exists_cons_of_ne_nil (mt List.reverse_eq_nil_iff.1 h)
  have hRun : (id ++ "_ctr".toList).reverse = 'r' :: 't' :: 'c' :: '_' :: c :: before := by
    rw [List.reverse_append, hReverse]
    rfl
  unfold serviceName?
  rw [hRun]
  show some (Name.normalChars (c :: before).reverse ++ "-ctr".toList) = _
  rw [← hReverse, List.reverse_reverse]

/-- The name of a container that stands alone before a colon. -/
theorem expand_append_suffix {id : String} (hId : id ≠ "")
    (hChars : ∀ c ∈ id.toList, isNameChar c = true) :
    expand (id ++ "_ctr:") = Name.normalize id ++ "-ctr:" := by
  have hNonempty : id.toList ≠ [] := mt String.toList_eq_nil_iff.1 hId
  have hRun : ∀ c ∈ id.toList ++ "_ctr".toList, isNameChar c = true := by
    rw [List.forall_mem_append]
    exact ⟨hChars, List.all_eq_true.1 rfl⟩
  have hText : (id ++ "_ctr:").toList = (id.toList ++ "_ctr".toList) ++ [':'] := by simp
  rw [expand, hText, expandChars_run (List.append_ne_nil_of_left_ne_nil hNonempty _) hRun,
    serviceName?_append hNonempty, expandChars, Name.normalize, ← String.toList_inj]
  simp

/-- The service of every container with the suffix has a name, and before a colon the name of the
container becomes that name exactly when a letter or a digit stands in front of the suffix and the
normal form with the suffix is no longer than a name. Behind underscores alone the dash of the
suffix comes first, and the name of a service is cut where the alias is not. -/
theorem expand_eq_name_iff (id : String) (hId : id ≠ "")
    (hChars : ∀ c ∈ id.toList, isNameChar c = true) :
    ∃ name, Name.ofText (id ++ "_ctr") = .ok name ∧
      (expand (id ++ "_ctr:") = name ++ ":" ↔
        (∃ c ∈ id.toList, c.isAlphanum = true) ∧
          (Name.normalize id ++ "-ctr").length ≤ Name.maxLength) := by
  have hName : Name.normalize (id ++ "_ctr") ≠ "" := by
    rw [Name.normalize, Ne, String.ofList_eq_empty_iff, Name.normalChars_eq_nil_iff]
    intro hNone
    exact absurd (hNone 'c' (by simp)) (by decide)
  refine ⟨_, Name.ofText_eq_ok_iff.2 ⟨rfl, hName⟩, ?_⟩
  have hColon : Name.normalize id ++ "-ctr:" = Name.normalize (id ++ "_ctr") ++ ":" ↔
      Name.normalChars id.toList ++ "-ctr".toList =
        Name.normalChars (id.toList ++ "_ctr".toList) := by
    have hSuffix : "-ctr:" = "-ctr" ++ ":" := rfl
    rw [hSuffix, ← String.append_assoc, String.append_left_inj, ← String.toList_inj]
    simp only [Name.normalize, String.toList_append, String.toList_ofList]
  have hSome : Name.normalChars id.toList ≠ [] ↔ ∃ c ∈ id.toList, c.isAlphanum = true := by
    rw [Ne, Name.normalChars_eq_nil_iff]
    simp only [Name.isLabelChar_asciiLower, not_forall, Bool.not_eq_false, exists_prop]
  have hLength : (Name.normalize id ++ "-ctr").length =
      (Name.normalChars id.toList ++ "-ctr".toList).length := by
    rw [← String.length_toList, String.toList_append, Name.normalize, String.toList_ofList]
  rw [expand_append_suffix hId hChars, hColon, Name.append_suffix_eq_iff, hSome, hLength]

theorem expand_eq_name_iff_greeter :
    "fancy_greeter_0" ≠ "" ∧ (∀ c ∈ "fancy_greeter_0".toList, isNameChar c = true) ∧
      ∃ name, Name.ofText ("fancy_greeter_0" ++ "_ctr") = .ok name ∧ name = "fancy-greeter-0-ctr" ∧
        expand ("fancy_greeter_0" ++ "_ctr:") = name ++ ":" := by
  have hId : "fancy_greeter_0" ≠ "" := by decide
  have hChars : ∀ c ∈ "fancy_greeter_0".toList, isNameChar c = true := List.all_eq_true.1 rfl
  obtain ⟨name, hName, hIff⟩ := expand_eq_name_iff "fancy_greeter_0" hId hChars
  have hOk : Name.ofText ("fancy_greeter_0" ++ "_ctr") = .ok "fancy-greeter-0-ctr" := by decide
  refine ⟨hId, hChars, name, hName, ?_, hIff.2 ⟨⟨'f', by decide, by decide⟩, by decide⟩⟩
  exact Except.ok.inj (hName.symm.trans hOk)

/-- The name of a container that is cut when it names the service. -/
def longName : String := String.ofList (List.replicate 60 'a')

/-- Behind an underscore alone, and behind sixty letters, the alias is not the name of the
service. -/
theorem expand_ne_name :
    (Name.ofText ("_" ++ "_ctr") = .ok "ctr" ∧ expand ("_" ++ "_ctr:") ≠ "ctr" ++ ":") ∧
      Name.ofText (longName ++ "_ctr") = .ok (longName ++ "-ct") ∧
      expand (longName ++ "_ctr:") ≠ (longName ++ "-ct") ++ ":" := by
  refine ⟨⟨by decide, ?_⟩, by decide, ?_⟩
  · rw [expand_append_suffix (by decide) (List.all_eq_true.1 rfl)]
    decide
  · rw [expand_append_suffix (by decide) (List.all_eq_true.1 rfl)]
    decide

end Alias

end KubeCompose
