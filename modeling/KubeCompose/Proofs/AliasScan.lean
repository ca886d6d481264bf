import KubeCompose.Proofs.Alias
import KubeCompose.Proofs.Replacement

/-!
# Where aliases are found

An alias is a run of name characters in front of `_ctr:`, taken as long as possible although the run
may hold the suffix itself. The search takes a whole run of name characters at a time and looks at
its end; what it finds are the leftmost longest aliases (`replaced_expandChars`). What is written
for an alias has no underscore and ends in a colon, so that no new alias can arise at its edges.
-/

namespace KubeCompose.Alias

open Text (Pattern Replaced)

/-- An alias at the start of a text, what it is shown as and what follows it. -/
inductive IsAlias : List Char → List Char → List Char → Prop
  | mk {id rest : List Char} (hNonempty : id ≠ []) (hChars : ∀ c ∈ id, isNameChar c = true)
    (hLongest : ∀ id' rest', (∀ c ∈ id', isNameChar c = true) →
      id ++ "_ctr:".toList ++ rest = id' ++ "_ctr:".toList ++ rest' → id'.length ≤ id.length) :
    IsAlias (id ++ "_ctr:".toList ++ rest) (Name.normalChars id ++ "-ctr:".toList) rest

section Runs

variable {id rest cs : List Char} {c : Char}

theorem forall_mem_append_suffix (hChars : ∀ c ∈ id, isNameChar c = true) :
    ∀ c ∈ id ++ "_ctr".toList, isNameChar c = true := by
  rw [List.forall_mem_append]
  exact ⟨hChars, List.all_eq_true.1 rfl⟩

/-- The colon of an alias stands behind a run that ends in the suffix. -/
theorem alias_eq (id rest : List Char) :
    id ++ "_ctr:".toList ++ rest = (id ++ "_ctr".toList) ++ ':' :: rest := by simp

/-- The name characters at the start of an alias are those in front of its colon. -/
theorem takeWhile_alias (hChars : ∀ c ∈ id, isNameChar c = true) (rest : List Char) :
    (id ++ "_ctr:".toList ++ rest).takeWhile isNameChar = id ++ "_ctr".toList := by
  rw [alias_eq, takeWhile_append_colon (forall_mem_append_suffix hChars)]

/-- A text begins with one alias at most. -/
theorem alias_inj {id' rest' : List Char} (hChars : ∀ c ∈ id, isNameChar c = true)
    (hChars' : ∀ c ∈ id', isNameChar c = true)
    (h : id ++ "_ctr:".toList ++ rest = id' ++ "_ctr:".toList ++ rest') :
    id = id' ∧ rest = rest' := by
  have hRuns : id ++ "_ctr".toList = id' ++ "_ctr".toList := by
    rw [← takeWhile_alias hChars rest, h, takeWhile_alias hChars' rest']
  obtain rfl := List.append_cancel_right hRuns
  exact ⟨rfl, List.append_cancel_left h⟩

/-- In front of the suffix and the colon no run can be longer, so that any run there makes an
alias. -/
theorem isAlias_iff {shown : List Char} :
    IsAlias cs shown rest ↔
      ∃ id, id ≠ [] ∧ (∀ c ∈ id, isNameChar c = true) ∧ cs = id ++ "_ctr:".toList ++ rest ∧
        shown = Name.normalChars id ++ "-ctr:".toList := by
  constructor
  · rintro ⟨hNonempty, hChars, -⟩
    exact ⟨_, hNonempty, hChars, rfl, rfl⟩
  · rintro ⟨id, hNonempty, hChars, rfl, rfl⟩
    refine .mk hNonempty hChars ?_
    intro id' rest' hChars' h
    rw [(alias_inj hChars hChars' h).1]

end Runs

/-- Aliases, as matches at the start of a text. -/
def pattern : Pattern where
  Begins := IsAlias
  nonempty := by
    intro shown rest h
    obtain ⟨id, -, -, hText, -⟩ := isAlias_iff.1 h
    simp at hText
  unique := by
    intro cs shown shown' rest rest' h h'
    obtain ⟨id, -, hChars, rfl, rfl⟩ := isAlias_iff.1 h
    obtain ⟨id', -, hChars', hText, rfl⟩ := isAlias_iff.1 h'
    obtain ⟨rfl, rfl⟩ := alias_inj hChars hChars' hText
    exact ⟨rfl, rfl⟩

/-! ### Texts that begin with no alias -/

section NoneAt

variable {c : Char} {cs id rest : List Char}

theorem begins_append (hNonempty : id ≠ []) (hChars : ∀ c ∈ id, isNameChar c = true)
    (rest : List Char) :
    pattern.Begins (id ++ "_ctr:".toList ++ rest) (Name.normalChars id ++ "-ctr:".toList) rest :=
  isAlias_iff.2 ⟨id, hNonempty, hChars, rfl, rfl⟩

/-- An alias behind a name character would be one with that character in front. -/
theorem noneAt_of_cons (hc : isNameChar c = true) (hNone : pattern.NoneAt (c :: cs)) :
    pattern.NoneAt cs := by
  intro shown rest h
  obtain ⟨id, -, hChars, rfl, -⟩ := isAlias_iff.1 h
  exact hNone _ _ (begins_append (List.cons_ne_nil c id) (List.forall_mem_cons.2 ⟨hc, hChars⟩) rest)

end NoneAt

/-! ### The search -/

section Search

variable {c : Char} {cs id run rest shown : List Char}

theorem exists_append_of_serviceName? (h : serviceName? run = some shown) :
    ∃ id, id ≠ [] ∧ run = id ++ "_ctr".toList := by
  unfold serviceName? at h
  split at h
  · rename_i c before hReverse
    refine ⟨(c :: before).reverse, by simp, ?_⟩
    rw [← List.reverse_inj, hReverse, List.reverse_append, List.reverse_reverse]
    rfl
  · simp at h

/-- A run in front of a colon that is no alias does not end in the suffix, or is nothing else. -/
theorem serviceName?_of_noneAt (hRun : ∀ c ∈ run, isNameChar c = true)
    (hNone : pattern.NoneAt (run ++ ':' :: rest)) : serviceName? run = none := by
  cases hName : serviceName? run with
  | none => rfl
  | some shown =>
    exfalso
    obtain ⟨id, hNonempty, rfl⟩ := exists_append_of_serviceName? hName
    have hChars : ∀ c ∈ id, isNameChar c = true := (List.forall_mem_append.1 hRun).1
    rw [← alias_eq] at hNone
    exact hNone _ _ (begins_append hNonempty hChars rest)

/-- An alias at the start of a text is replaced. -/
theorem expandChars_append (hNonempty : id ≠ []) (hChars : ∀ c ∈ id, isNameChar c = true)
    (rest : List Char) :
    expandChars (id ++ "_ctr:".toList ++ rest) =
      Name.normalChars id ++ "-ctr:".toList ++ expandChars rest := by
  have hRun : id ++ "_ctr".toList ≠ [] := List.append_ne_nil_of_left_ne_nil hNonempty _
  rw [alias_eq, expandChars_run hRun (forall_mem_append_suffix hChars),
    serviceName?_append hNonempty, Option.getD_some]
  simp

/-- A run of name characters that is no alias is kept. -/
theorem expandChars_of_noneAt (hNone : pattern.NoneAt cs) :
    expandChars cs = cs.takeWhile isNameChar ++ expandChars (cs.dropWhile isNameChar) := by
  cases cs with
  | nil => rfl
  | cons c r =>
    by_cases hc : isNameChar c = true
    · have hShown : (if (r.dropWhile isNameChar).head? = some ':' then
          (serviceName? (c :: r.takeWhile isNameChar)).getD (c :: r.takeWhile isNameChar)
          else c :: r.takeWhile isNameChar) = c :: r.takeWhile isNameChar := by
        split
        · rename_i hColon
          obtain ⟨rest, hRest⟩ := List.head?_eq_some_iff.1 hColon
          have hRun : ∀ d ∈ c :: r.takeWhile isNameChar, isNameChar d = true :=
            List.forall_mem_cons.2 ⟨hc, fun d hd => List.mem_takeWhile_imp hd⟩
          have hText : (c :: r.takeWhile isNameChar) ++ ':' :: rest = c :: r := by
            rw [List.cons_append, ← hRest, List.takeWhile_append_dropWhile]
          rw [serviceName?_of_noneAt hRun (hText ▸ hNone), Option.getD_none]
        · rfl
      rw [List.takeWhile_cons_of_pos hc, List.dropWhile_cons_of_pos hc, expandChars, if_pos hc]
      exact congrArg (· ++ expandChars (r.dropWhile isNameChar)) hShown
    · rw [List.takeWhile_cons_of_neg hc, List.dropWhile_cons_of_neg hc, List.nil_append]

/-- A character at which no alias begins is kept. -/
theorem expandChars_cons (hNone : pattern.NoneAt (c :: cs)) :
    expandChars (c :: cs) = c :: expandChars cs := by
  by_cases hc : isNameChar c = true
  · rw [expandChars_of_noneAt hNone, expandChars_of_noneAt (noneAt_of_cons hc hNone),
      List.takeWhile_cons_of_pos hc, List.dropWhile_cons_of_pos hc, List.cons_append]
  · rw [expandChars, if_neg hc]

/-- The search replaces the leftmost longest aliases. -/
theorem replaced_expandChars (cs : List Char) : Replaced pattern cs (expandChars cs) := by
  -- on the length, since an alias is passed over as a whole
  induction hLength : cs.length using Nat.strong_induction_on generalizing cs with
  | _ n ih =>
    subst hLength
    by_cases hNone : pattern.NoneAt cs
    · cases cs with
      | nil =>
        rw [expandChars]
        exact .nil
      | cons c r =>
        rw [expandChars_cons hNone]
        exact .kept hNone (ih _ (Nat.lt_succ_self _) r rfl)
    · obtain ⟨shown, rest, h⟩ : ∃ shown rest, pattern.Begins cs shown rest := by
        simpa [Pattern.NoneAt] using hNone
      obtain ⟨id, hNonempty, hChars, rfl, rfl⟩ := isAlias_iff.1 h
      rw [expandChars_append hNonempty hChars]
      refine .found h (ih _ ?_ rest rfl)
      simp
      omega

end Search

/-! ### No alias is left -/

section Left

variable {c : Char} {cs id out before : List Char}

/-- What an alias is shown as holds no underscore. -/
theorem underscore_notMem_shown (id : List Char) :
    '_' ∉ Name.normalChars id ++ "-ctr:".toList := by
  intro hMem
  rcases List.mem_append.1 hMem with hName | hSuffix
  · have hChar := (Name.isNormal_normalChars id).collapsed.of_mem hName
    exact absurd hChar (by decide)
  · exact absurd hSuffix (by decide)

/-- The suffix behind a name character does not begin in front of a text that holds no underscore
and ends in another character. -/
theorem infix_of_infix_append (hNone : '_' ∉ before)
    (hEnd : ∀ d, before.getLast? = some d → isNameChar d = false) (hc : isNameChar c = true)
    (h : c :: "_ctr:".toList <:+: before ++ out) : c :: "_ctr:".toList <:+: out := by
  induction before with
  | nil => exact h
  | cons d r ih =>
    obtain ⟨hUnderscore, hRest⟩ := not_or.1 (mt List.mem_cons.2 hNone)
    rw [List.cons_append, List.infix_cons_iff] at h
    rcases h with hPrefix | hInfix
    · exfalso
      obtain ⟨rfl, hSuffix⟩ := List.cons_prefix_cons.1 hPrefix
      cases r with
      | nil => exact absurd (hEnd c rfl) (by simp [hc])
      | cons e r =>
        obtain ⟨rfl, -⟩ := List.cons_prefix_cons.1 hSuffix
        exact hRest List.mem_cons_self
    · refine ih hRest ?_ hInfix
      intro e he
      cases r with
      | nil => simp at he
      | cons f r => exact hEnd e (by rwa [List.getLast?_cons_cons])

/-- Where no alias begins, a run of name characters that is written with a colon behind it stood
there before. -/
theorem exists_append_of_replaced {run : List Char} (hRun : ∀ d ∈ run, isNameChar d = true)
    (hNone : pattern.NoneAt cs) (h : Replaced pattern cs (run ++ ':' :: out)) :
    ∃ rest, cs = run ++ ':' :: rest := by
  induction run generalizing cs with
  | nil =>
    obtain ⟨r, rfl, -⟩ := h.exists_cons hNone
    exact ⟨r, rfl⟩
  | cons d run ih =>
    obtain ⟨hd, hRun⟩ := List.forall_mem_cons.1 hRun
    obtain ⟨r, rfl, hBehind⟩ := h.exists_cons hNone
    obtain ⟨rest, rfl⟩ := ih hRun (noneAt_of_cons hd hNone) hBehind
    exact ⟨rest, rfl⟩

/-- Nowhere in a text in which the aliases are replaced does the suffix stand behind a name
character. -/
theorem not_infix_of_replaced (h : Replaced pattern cs out) (hc : isNameChar c = true) :
    ¬ c :: "_ctr:".toList <:+: out := by
  induction h with
  | nil => simp
  | found hFound _ ih =>
    obtain ⟨id, -, -, -, rfl⟩ := isAlias_iff.1 hFound
    intro hInfix
    refine ih (infix_of_infix_append (underscore_notMem_shown id) ?_ hc hInfix)
    intro d hd
    rw [List.getLast?_append_of_ne_nil _ (by decide)] at hd
    obtain rfl : ':' = d := Option.some.inj hd
    rfl
  | kept hNone hRest ih =>
    intro hInfix
    rcases List.infix_cons_iff.1 hInfix with hPrefix | hBehind
    · obtain ⟨rfl, hSuffix⟩ := List.cons_prefix_cons.1 hPrefix
      have hRun : ∀ d ∈ "_ctr".toList, isNameChar d = true := List.all_eq_true.1 rfl
      obtain ⟨behind, rfl⟩ := hSuffix
      obtain ⟨rest, rfl⟩ := exists_append_of_replaced hRun (noneAt_of_cons hc hNone) hRest
      exact hNone _ _ (begins_append (List.cons_ne_nil c []) (by simpa using hc) rest)
    · exact ih hBehind

/-- A text without the suffix behind a name character stays as it is. -/
theorem replaced_self (h : ∀ c, isNameChar c = true → ¬ c :: "_ctr:".toList <:+: cs) :
    Replaced pattern cs cs := by
  refine .self ?_
  intro t hSuffix shown rest hFound
  obtain ⟨id, hNonempty, hChars, rfl, -⟩ := isAlias_iff.1 hFound
  -- the last character of the run stands in front of the suffix
  have hLast := List.dropLast_append_getLast hNonempty
  refine h (id.getLast hNonempty) (hChars _ (List.getLast_mem hNonempty)) ?_
  refine List.IsInfix.trans ⟨id.dropLast, rest, ?_⟩ hSuffix.isInfix
  conv_rhs => rw [← hLast]
  simp

end Left

/-- Expanding replaces a text in the one way in which it can be replaced. -/
theorem replaced_iff {text out : String} :
    Replaced pattern text.toList out.toList ↔ out = expand text := by
  have hText : Replaced pattern text.toList (expand text).toList := by
    rw [expand, String.toList_ofList]
    exact replaced_expandChars text.toList
  constructor
  · intro hOut
    exact String.toList_inj.1 (hOut.unique hText)
  · rintro rfl
    exact hText

/-- Expanding a text replaces its leftmost longest aliases and nothing else, no alias is left behind
it, and so a second time changes nothing. -/
theorem expand_leftmost_longest (text : String) :
    (∀ out : String, Replaced pattern text.toList out.toList ↔ out = expand text) ∧
      (∀ c, isNameChar c = true → ¬ c :: "_ctr:".toList <:+: (expand text).toList) ∧
      expand (expand text) = expand text := by
  have hLeft : ∀ c, isNameChar c = true → ¬ c :: "_ctr:".toList <:+: (expand text).toList := by
    intro c hc
    exact not_infix_of_replaced (replaced_iff.2 rfl) hc
  refine ⟨fun out => replaced_iff, hLeft, ?_⟩
  exact (replaced_iff.1 (replaced_self hLeft)).symm

/-- The run of the first alias holds the suffix itself, and the last suffix has no run. -/
theorem expand_leftmost_longest_nested :
    expand "é_ctr_ctr:a__ctr:_ctr:" = "éctr-ctr:a-ctr:_ctr:" ∧
      Replaced pattern "é_ctr_ctr:a__ctr:_ctr:".toList "éctr-ctr:a-ctr:_ctr:".toList ∧
      isNameChar 'r' = true ∧
      ¬ 'r' :: "_ctr:".toList <:+: (expand "é_ctr_ctr:a__ctr:_ctr:").toList ∧
      expand (expand "é_ctr_ctr:a__ctr:_ctr:") = "éctr-ctr:a-ctr:_ctr:" := by
  obtain ⟨hReplaced, hLeft, hAgain⟩ := expand_leftmost_longest "é_ctr_ctr:a__ctr:_ctr:"
  have hText : expand "é_ctr_ctr:a__ctr:_ctr:" = "éctr-ctr:a-ctr:_ctr:" := by decide +kernel
  have hChar : isNameChar 'r' = true := by decide
  exact ⟨hText, (hReplaced _).2 hText.symm, hChar, hLeft 'r' hChar, hAgain.trans hText⟩

end KubeCompose.Alias
