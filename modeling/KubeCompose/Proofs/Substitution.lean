import KubeCompose.DotEnv
import KubeCompose.Proofs.OrderedMap
import KubeCompose.Proofs.Replacement
import KubeCompose.Proofs.Text

/-!
# Where references are replaced

A reference is a name between its two marks. The name ends at the first closing mark, is not empty,
and may hold any other character, an opening mark among them. Substituting replaces the leftmost
references (`replaced_substituteChars`), and the equations of `IsScan` follow from that: in front of
the first opening mark a text is kept, and an opening mark is kept that no name and closing mark
follow.

A value that is inserted is not read again. It could still make a reference of what stands around it
when the text is read once more, unless it is not empty and holds no opening character.
-/

namespace KubeCompose.DotEnv

open Text (Pattern Replaced cutAt? cutAt?_append cutAt?_eq_none_iff eq_append_of_cutAt?)

/-- The mark that begins a reference. -/
def opening : List Char := ['$', '{']

/-- A reference to a name. -/
def referenceTo (name : List Char) : List Char := opening ++ name ++ ['}']

/-- What a reference is shown as: the value of the variable, or the reference when it is unknown. -/
def shown (vars : DotEnv) (name : List Char) : List Char :=
  ((OrderedMap.find? vars (String.ofList name)).map String.toList).getD (referenceTo name)

/-- A reference at the start of a text, what it is shown as and what follows it. -/
inductive IsReference (vars : DotEnv) : List Char → List Char → List Char → Prop
  | mk {name : List Char} (rest : List Char) (hNonempty : name ≠ []) (hName : '}' ∉ name) :
    IsReference vars (referenceTo name ++ rest) (shown vars name) rest

variable {vars : DotEnv} {c : Char} {cs t name rest out : List Char}

/-- Where a reference begins, its name and what follows it can be cut off. -/
theorem isReference_iff {written : List Char} :
    IsReference vars cs written rest ↔
      ∃ name r, name ≠ [] ∧ cs = '$' :: '{' :: r ∧ cutAt? '}' r = some (name, rest) ∧
        written = shown vars name := by
  constructor
  · rintro ⟨rest, hNonempty, hName⟩
    refine ⟨_, _, hNonempty, ?_, cutAt?_append rest hName, rfl⟩
    simp [referenceTo, opening]
  · rintro ⟨name, r, hNonempty, rfl, hCut, rfl⟩
    obtain ⟨rfl, hName⟩ := eq_append_of_cutAt? hCut
    have hText : '$' :: '{' :: (name ++ '}' :: rest) = referenceTo name ++ rest := by
      simp [referenceTo, opening]
    rw [hText]
    exact .mk rest hNonempty hName

/-- References, as matches at the start of a text. -/
def pattern (vars : DotEnv) : Pattern where
  Begins := IsReference vars
  nonempty := by
    intro written rest h
    obtain ⟨name, r, -, hText, -⟩ := isReference_iff.1 h
    simp at hText
  unique := by
    intro cs written written' rest rest' h h'
    obtain ⟨name, r, -, rfl, hCut, rfl⟩ := isReference_iff.1 h
    obtain ⟨name', r', -, hText, hCut', rfl⟩ := isReference_iff.1 h'
    simp only [List.cons.injEq, true_and] at hText
    rw [← hText, hCut, Option.some.injEq, Prod.mk.injEq] at hCut'
    exact ⟨by rw [hCut'.1], hCut'.2⟩

/-! ### Texts that begin with no reference -/

theorem begins_reference (vars : DotEnv) (hNonempty : name ≠ []) (hName : '}' ∉ name)
    (rest : List Char) :
    (pattern vars).Begins (referenceTo name ++ rest) (shown vars name) rest :=
  .mk rest hNonempty hName

theorem noneAt_of_ne (hc : c ≠ '$') : (pattern vars).NoneAt (c :: cs) := by
  intro written rest h
  obtain ⟨name, r, -, hText, -⟩ := isReference_iff.1 h
  exact hc (List.cons.inj hText).1

theorem noneAt_of_notMem (hClosing : '}' ∉ cs) : (pattern vars).NoneAt cs := by
  intro written rest h
  obtain ⟨name, r, -, rfl, hCut, -⟩ := isReference_iff.1 h
  obtain ⟨rfl, -⟩ := eq_append_of_cutAt? hCut
  simp at hClosing

/-- Behind the opening mark there is a name, unless nothing is closed or the mark is closed at
once. -/
theorem noneAt_opening_iff :
    (pattern vars).NoneAt (opening ++ cs) ↔ '}' ∉ cs ∨ ∃ r, cs = '}' :: r := by
  constructor
  · intro hNone
    cases hCut : cutAt? '}' cs with
    | none => exact .inl (cutAt?_eq_none_iff.1 hCut)
    | some parts =>
      obtain ⟨name, rest⟩ := parts
      obtain ⟨rfl, hName⟩ := eq_append_of_cutAt? hCut
      right
      by_cases hNonempty : name = []
      · exact ⟨rest, by rw [hNonempty, List.nil_append]⟩
      · exfalso
        have hBegins := begins_reference vars hNonempty hName rest
        rw [referenceTo, List.append_assoc, List.append_assoc] at hBegins
        exact hNone _ _ hBegins
  · rintro hClosing written rest h
    obtain ⟨name, r, hNonempty, hText, hCut, -⟩ := isReference_iff.1 h
    obtain rfl : cs = r := by simpa [opening] using hText
    obtain ⟨rfl, hName⟩ := eq_append_of_cutAt? hCut
    rcases hClosing with hNone | ⟨r, hClosed⟩
    · simp at hNone
    · obtain ⟨d, s, rfl⟩ := List.exists_cons_of_ne_nil hNonempty
      obtain ⟨rfl, -⟩ := List.cons.inj hClosed
      exact hName List.mem_cons_self

/-- No reference begins in a text without an opening mark, nor at its end when the mark does not
end behind it. -/
theorem noneAt_append {u : List Char} (hUnmarked : ¬ opening <:+: t)
    (hHead : rest.head? ≠ some '{') (hNonempty : u ≠ []) (hSuffix : u <:+ t) :
    (pattern vars).NoneAt (u ++ rest) := by
  intro written behind h
  obtain ⟨name, r, -, hText, -⟩ := isReference_iff.1 h
  obtain ⟨c, u, rfl⟩ := List.exists_cons_of_ne_nil hNonempty
  obtain ⟨rfl, hBehind⟩ := List.cons.inj hText
  cases u with
  | nil =>
    rw [List.append_eq, List.nil_append] at hBehind
    exact hHead (by rw [hBehind, List.head?_cons])
  | cons d u =>
    obtain ⟨rfl, -⟩ := List.cons.inj hBehind
    have hPrefix : opening <+: '$' :: '{' :: u := ⟨u, rfl⟩
    exact hUnmarked (hPrefix.isInfix.trans hSuffix.isInfix)

/-! ### The search -/

/-- Substituting replaces the leftmost references. -/
theorem replaced_substituteChars (vars : DotEnv) (cs : List Char) :
    Replaced (pattern vars) cs (substituteChars vars cs) := by
  fun_induction substituteChars vars cs with
  | case1 r n name rest hCut value ih =>
    have hShown : value = shown vars (n :: name) := by
      simp only [value, shown, referenceTo, opening]
      cases OrderedMap.find? vars (String.ofList (n :: name)) <;> rfl
    exact .found (isReference_iff.2 ⟨n :: name, r, List.cons_ne_nil n name, rfl, hCut, hShown⟩) ih
  | case2 r hCut ih =>
    refine .kept ?_ ih
    intro written rest h
    obtain ⟨name, r', hNonempty, hText, hCut', -⟩ := isReference_iff.1 h
    obtain ⟨d, s, rfl⟩ := List.exists_cons_of_ne_nil hNonempty
    simp only [List.cons.injEq, true_and] at hText
    exact hCut d s rest (hText ▸ hCut')
  | case3 c r hText ih =>
    refine .kept ?_ ih
    intro written rest h
    obtain ⟨name, r', -, hMark, -⟩ := isReference_iff.1 h
    obtain ⟨hDollar, hBrace⟩ := List.cons.inj hMark
    exact hText r' hDollar hBrace
  | case4 => exact .nil

/-- A text in which nothing is closed is kept. -/
theorem replaced_of_notMem (hClosing : '}' ∉ cs) : Replaced (pattern vars) cs cs := by
  refine .self ?_
  intro u hSuffix
  exact noneAt_of_notMem fun hMem => hClosing (hSuffix.subset hMem)

/-! ### A second time -/

/-- No value is empty or holds a character of an opening mark. -/
def Inert (vars : DotEnv) : Prop := ∀ e ∈ vars, e.2 ≠ "" ∧ '$' ∉ e.2.toList ∧ '{' ∉ e.2.toList

section Inert

variable (hInert : Inert vars)
include hInert

theorem Inert.of_find? {key value : String} (h : OrderedMap.find? vars key = some value) :
    value.toList ≠ [] ∧ '$' ∉ value.toList ∧ '{' ∉ value.toList := by
  obtain ⟨hNonempty, hMarks⟩ := hInert _ (OrderedMap.mem_of_find? h)
  exact ⟨mt String.toList_eq_nil_iff.1 hNonempty, hMarks⟩

/-- A brace that opens is not the first character that a reference is shown as. -/
theorem Inert.exists_cons_shown (name : List Char) :
    ∃ d s, shown vars name = d :: s ∧ d ≠ '{' := by
  unfold shown
  cases hValue : OrderedMap.find? vars (String.ofList name) with
  | none => exact ⟨'$', _, rfl, by decide⟩
  | some value =>
    obtain ⟨hNonempty, -, hBrace⟩ := hInert.of_find? hValue
    obtain ⟨d, s, hText⟩ := List.exists_cons_of_ne_nil hNonempty
    refine ⟨d, s, hText, ?_⟩
    rintro rfl
    exact hBrace (hText ▸ List.mem_cons_self)

/-- A brace that opens is written first only where it stood. -/
theorem Inert.exists_brace (h : Replaced (pattern vars) cs ('{' :: out)) :
    ∃ r, cs = '{' :: r ∧ Replaced (pattern vars) r out := by
  refine h.exists_cons ?_
  intro written rest hFound
  obtain ⟨behind, -, hOut⟩ := h.of_begins hFound
  obtain ⟨name, -, -, -, -, rfl⟩ := isReference_iff.1 hFound
  obtain ⟨d, s, hShown, hBrace⟩ := hInert.exists_cons_shown name
  rw [hShown, List.cons_append, List.cons.injEq] at hOut
  exact hBrace hOut.1.symm

/-- A character that is kept does not begin a reference with what is written behind it. -/
theorem Inert.noneAt_cons (hNone : (pattern vars).NoneAt (c :: cs))
    (h : Replaced (pattern vars) cs out) : (pattern vars).NoneAt (c :: out) := by
  intro written rest hFound
  obtain ⟨name, r, hNonempty, hText, hCut, -⟩ := isReference_iff.1 hFound
  obtain ⟨rfl, rfl⟩ := List.cons.inj hText
  obtain ⟨s, rfl, hBehind⟩ := hInert.exists_brace h
  obtain ⟨rfl, hName⟩ := eq_append_of_cutAt? hCut
  rcases noneAt_opening_iff.1 hNone with hClosing | ⟨s, rfl⟩
  · -- nothing is closed behind the mark, so that nothing is replaced there
    obtain rfl := hBehind.unique (replaced_of_notMem hClosing)
    simp at hClosing
  · obtain ⟨behind, -, hOut⟩ := hBehind.of_noneAt (noneAt_of_ne (by decide))
    obtain ⟨d, s, rfl⟩ := List.exists_cons_of_ne_nil hNonempty
    obtain ⟨rfl, -⟩ := List.cons.inj hOut
    exact hName List.mem_cons_self

/-- What is written holds the references that were left, and no other. -/
theorem Inert.replaced_again (h : Replaced (pattern vars) cs out) :
    Replaced (pattern vars) out out := by
  induction h with
  | nil => exact .nil
  | found hFound _ ih =>
    obtain ⟨rest, hNonempty, hName⟩ := hFound
    unfold shown
    cases hValue : OrderedMap.find? vars (String.ofList _) with
    | none =>
      have hBegins := begins_reference vars hNonempty hName
      rw [shown, hValue] at hBegins
      exact .found (hBegins _) ih
    | some value =>
      refine .append ?_ ih
      intro u hPart hSuffix
      obtain ⟨d, u, rfl⟩ := List.exists_cons_of_ne_nil hPart
      refine noneAt_of_ne ?_
      rintro rfl
      exact (hInert.of_find? hValue).2.1 (hSuffix.subset List.mem_cons_self)
  | kept hNone hRest ih => exact .kept (hInert.noneAt_cons hNone hRest) ih

end Inert

/-! ### Texts -/

/-- A text without an opening mark. -/
def Unmarked (text : String) : Prop := ¬ opening <:+: text.toList

/-- A reference as it is written. -/
def reference (name : String) : String := "$\x7b" ++ name ++ "\x7d"

/-- The equations of a scan from left to right, one for each thing that can stand behind a text
without an opening mark. -/
structure IsScan (vars : DotEnv) (f : String → String) : Prop where
  unmarked : ∀ t, Unmarked t → f t = t
  unclosed : ∀ t rest, Unmarked t → '}' ∉ rest.toList →
    f (t ++ "$\x7b" ++ rest) = t ++ "$\x7b" ++ rest
  unnamed : ∀ t rest, Unmarked t → f (t ++ reference "" ++ rest) = t ++ reference "" ++ f rest
  named : ∀ t name rest, Unmarked t → name ≠ "" → '}' ∉ name.toList →
    f (t ++ reference name ++ rest) =
      t ++ (OrderedMap.find? vars name).getD (reference name) ++ f rest

theorem toList_reference (name : String) : (reference name).toList = referenceTo name.toList := by
  simp [reference, referenceTo, opening]

theorem shown_toList (vars : DotEnv) (name : String) :
    shown vars name.toList = ((OrderedMap.find? vars name).getD (reference name)).toList := by
  rw [shown, String.ofList_toList]
  cases OrderedMap.find? vars name with
  | none => exact (toList_reference name).symm
  | some value => rfl

/-- Substituting replaces a text in the one way in which it can be replaced. -/
theorem replaced_iff {text out : String} :
    Replaced (pattern vars) text.toList out.toList ↔ out = substitute vars text := by
  have hText : Replaced (pattern vars) text.toList (substitute vars text).toList := by
    rw [substitute, String.toList_ofList]
    exact replaced_substituteChars vars text.toList
  constructor
  · intro hOut
    exact String.toList_inj.1 (hOut.unique hText)
  · rintro rfl
    exact hText

section Scan

variable {text before behind name : String}

/-- In front of the first opening mark a text is kept. -/
theorem substitute_append (vars : DotEnv) (hUnmarked : Unmarked before)
    (hHead : behind.toList.head? ≠ some '{') :
    substitute vars (before ++ behind) = before ++ substitute vars behind := by
  symm
  apply replaced_iff.1
  rw [String.toList_append, String.toList_append]
  refine .append ?_ (replaced_iff.2 rfl)
  intro u hNonempty hSuffix
  exact noneAt_append hUnmarked hHead hNonempty hSuffix

/-- A reference in front of a text is replaced. -/
theorem substitute_reference (vars : DotEnv) (hNonempty : name ≠ "") (hName : '}' ∉ name.toList)
    (behind : String) :
    substitute vars (reference name ++ behind) =
      (OrderedMap.find? vars name).getD (reference name) ++ substitute vars behind := by
  symm
  apply replaced_iff.1
  rw [String.toList_append, String.toList_append, toList_reference, ← shown_toList]
  have hChars : name.toList ≠ [] := mt String.toList_eq_nil_iff.1 hNonempty
  exact .found (begins_reference vars hChars hName behind.toList) (replaced_iff.2 rfl)

/-- Marks with nothing between them are kept in front of a text. -/
theorem substitute_emptyReference (vars : DotEnv) (behind : String) :
    substitute vars (reference "" ++ behind) = reference "" ++ substitute vars behind := by
  have hOpening : (pattern vars).NoneAt (opening ++ '}' :: behind.toList) :=
    noneAt_opening_iff.2 (.inr ⟨behind.toList, rfl⟩)
  symm
  apply replaced_iff.1
  rw [String.toList_append, String.toList_append, toList_reference]
  exact .kept hOpening (.kept (noneAt_of_ne (by decide)) (.kept (noneAt_of_ne (by decide))
    (replaced_iff.2 rfl)))

/-- A text in which nothing is closed is kept. -/
theorem substitute_of_notMem (vars : DotEnv) (hClosing : '}' ∉ text.toList) :
    substitute vars text = text :=
  (replaced_iff.1 (replaced_of_notMem hClosing)).symm

theorem head?_reference (name behind : String) :
    (reference name ++ behind).toList.head? ≠ some '{' := by
  simp [toList_reference, referenceTo, opening]

end Scan

/-- Substituting is the scan of a text from left to right. -/
theorem isScan_substitute (vars : DotEnv) : IsScan vars (substitute vars) where
  unmarked := by
    intro t hUnmarked
    have hAppend : substitute vars (t ++ "") = t ++ substitute vars "" :=
      substitute_append vars hUnmarked (by simp)
    have hEmpty : substitute vars "" = "" := substitute_of_notMem vars (by simp)
    rwa [hEmpty, String.append_empty] at hAppend
  unclosed := by
    intro t rest hUnmarked hClosing
    have hKept : '}' ∉ ("$\x7b" ++ rest).toList := by simpa using hClosing
    rw [String.append_assoc, substitute_append vars hUnmarked (by simp),
      substitute_of_notMem vars hKept]
  unnamed := by
    intro t rest hUnmarked
    rw [String.append_assoc, substitute_append vars hUnmarked (head?_reference "" rest),
      substitute_emptyReference, String.append_assoc]
  named := by
    intro t name rest hUnmarked hNonempty hName
    rw [String.append_assoc, substitute_append vars hUnmarked (head?_reference name rest),
      substitute_reference vars hNonempty hName, String.append_assoc]

/-- A text without an opening character is kept. -/
theorem substitute_eq_self (vars : DotEnv) {text : String} (h : '$' ∉ text.toList) :
    vars.substitute text = text :=
  (isScan_substitute vars).unmarked text fun hInfix => h (hInfix.subset (by simp [opening]))

/-- Substituting replaces the leftmost references and nothing else, in one scan of the text that
does not read what it inserts; a second time changes nothing when the values are inert. -/
theorem substitute_leftmost (vars : DotEnv) :
    (∀ text out : String,
      Replaced (pattern vars) text.toList out.toList ↔ out = substitute vars text) ∧
      IsScan vars (substitute vars) ∧
      (Inert vars → ∀ text, substitute vars (substitute vars text) = substitute vars text) := by
  refine ⟨fun text out => replaced_iff, isScan_substitute vars, ?_⟩
  intro hInert text
  exact (replaced_iff.1 (hInert.replaced_again (replaced_iff.2 rfl))).symm

/-- The variables of a small project. -/
def someVariables : DotEnv := [("USER", "admin"), ("PORT", "3306")]

/-- The name of a reference may hold an opening mark; the text in front may end in a dollar sign. -/
theorem substitute_leftmost_someVariables :
    Unmarked "$" ∧ "USER" ≠ "" ∧ '}' ∉ "USER".toList ∧ "x$\x7bUSER" ≠ "" ∧
      '}' ∉ "x$\x7bUSER".toList ∧ '}' ∉ ":80".toList ∧ Inert someVariables ∧
      substitute someVariables
          ("$" ++ reference "USER" ++ ("$" ++ reference "" ++ ("$" ++ reference "x$\x7bUSER" ++
            ("$" ++ "$\x7b" ++ ":80")))) =
        "$" ++ "admin" ++ ("$" ++ reference "" ++ ("$" ++ reference "x$\x7bUSER" ++
          ("$" ++ "$\x7b" ++ ":80"))) ∧
      substitute someVariables (substitute someVariables ("$" ++ reference "USER" ++ "")) =
        substitute someVariables ("$" ++ reference "USER" ++ "") := by
  obtain ⟨-, hScan, hAgain⟩ := substitute_leftmost someVariables
  have hUnmarked : Unmarked "$" := by
    unfold Unmarked
    decide
  have hInert : Inert someVariables := by
    unfold Inert
    decide
  have hUnclosed := hScan.unclosed "$" ":80" hUnmarked (by decide)
  have hUnknown := hScan.named "$" "x$\x7bUSER" ("$" ++ "$\x7b" ++ ":80") hUnmarked (by decide)
    (by decide)
  have hUnnamed := hScan.unnamed "$" ("$" ++ reference "x$\x7bUSER" ++ ("$" ++ "$\x7b" ++ ":80"))
    hUnmarked
  have hUser := hScan.named "$" "USER"
    ("$" ++ reference "" ++ ("$" ++ reference "x$\x7bUSER" ++ ("$" ++ "$\x7b" ++ ":80"))) hUnmarked
    (by decide) (by decide)
  refine ⟨hUnmarked, by decide, by decide, by decide, by decide, by decide, hInert, ?_,
    hAgain hInert _⟩
  rw [hUser, hUnnamed, hUnknown, hUnclosed]
  rfl

end KubeCompose.DotEnv
