import KubeCompose.DotEnv
import KubeCompose.Proofs.OrderedMap
import KubeCompose.Proofs.Text

/-!
# Variables as they are written

`Line` lists what a line can be that is written with a quoted value, or that holds no assignment at
all, and `Written` puts lines together with their ends. The value may hold anything but the end of a
line: the quotes that are taken off are the first and the last character behind the equals sign when
the white space is gone, whatever stands between them.
-/

namespace KubeCompose.DotEnv

open OrderedMap (find? keys)
open Text (isBlank cutAt? cutAt?_append cutAt?_eq_none_iff splitOn trim)

/-- White space within a line. -/
def IsPadding (cs : List Char) : Prop := ∀ c ∈ cs, isBlank c = true ∧ c ≠ '\n'

/-- A name of a variable that can be read back. -/
structure IsKey (key : String) : Prop where
  nonempty : key ≠ ""
  trimmed : Text.trimmed key = key
  noEquals : '=' ∉ key.toList
  oneLine : '\n' ∉ key.toList
  noComment : key.toList.head? ≠ some '#'

/-- A value between quotes. -/
def quoted (quote : Char) (value : List Char) : List Char := quote :: (value ++ [quote])

/-- A line and the assignment on it. -/
inductive Line : List Char → Option (String × String) → Prop
  | assignment {key value : String} {quote : Char} {before behind front after : List Char}
    (hKey : IsKey key) (hValue : '\n' ∉ value.toList) (hQuote : quote = '"' ∨ quote = '\'')
    (hBefore : IsPadding before) (hBehind : IsPadding behind) (hFront : IsPadding front)
    (hAfter : IsPadding after) :
    Line (before ++ (key.toList ++ behind ++ '=' :: (front ++ quoted quote value.toList)) ++ after)
      (some (key, value))
  | blank {cs : List Char} (h : IsPadding cs) : Line cs none
  | comment {before rest : List Char} (hBefore : IsPadding before) (hRest : '\n' ∉ rest) :
    Line (before ++ '#' :: rest) none
  | noEquals {cs : List Char} (hLine : '\n' ∉ cs) (hEquals : '=' ∉ cs) : Line cs none
  | noKey {before rest : List Char} (hBefore : IsPadding before) (hRest : '\n' ∉ rest) :
    Line (before ++ '=' :: rest) none

/-- A text of lines, each with its end but the last, and the assignments on them. -/
inductive Written : List Char → List (String × String) → Prop
  | last {line : List Char} {a : Option (String × String)} (h : Line line a) :
    Written line a.toList
  | lf {line text : List Char} {a : Option (String × String)} {rest : List (String × String)}
    (h : Line line a) (hRest : Written text rest) :
    Written (line ++ '\n' :: text) (a.toList ++ rest)
  | crlf {line text : List Char} {a : Option (String × String)} {rest : List (String × String)}
    (h : Line line a) (hRest : Written text rest) :
    Written (line ++ '\r' :: '\n' :: text) (a.toList ++ rest)

/-! ### One line -/

section Line

variable {key value : String} {quote : Char} {cs before behind front after rest : List Char}
  {a : Option (String × String)}

theorem IsPadding.isBlank (h : IsPadding cs) : ∀ c ∈ cs, isBlank c = true := fun c hc => (h c hc).1

theorem IsPadding.oneLine (h : IsPadding cs) : '\n' ∉ cs := fun hc => (h _ hc).2 rfl

theorem IsPadding.noEquals (h : IsPadding cs) : '=' ∉ cs := fun hc => absurd (h _ hc).1 (by decide)

theorem trim_toList (key : String) : trim key.toList = (Text.trimmed key).toList :=
  String.toList_ofList.symm

/-- The equals sign behind a name is the first one, and the name is read without the white space
behind it. -/
theorem IsKey.cut (hKey : IsKey key) (hBehind : IsPadding behind) (rest : List Char) :
    cutAt? '=' (key.toList ++ behind ++ '=' :: rest) = some (key.toList ++ behind, rest) ∧
      trim (key.toList ++ behind) = key.toList := by
  constructor
  · refine cutAt?_append rest ?_
    simp only [List.mem_append, not_or]
    exact ⟨hKey.noEquals, hBehind.noEquals⟩
  · rw [Text.trim_append_right hBehind.isBlank, trim_toList, hKey.trimmed]

theorem isBlank_quote (h : quote = '"' ∨ quote = '\'') : isBlank quote = false := by
  rcases h with rfl | rfl <;> decide

/-- White space in front of a quoted value is taken off, none within the quotes. -/
theorem trim_quoted (hQuote : quote = '"' ∨ quote = '\'') (hFront : IsPadding front)
    (value : List Char) : trim (front ++ quoted quote value) = quoted quote value := by
  have hBlank := isBlank_quote hQuote
  rw [Text.trim_append_left hFront.isBlank]
  apply Text.trim_eq_self
  · intro c hc
    obtain rfl : quote = c := Option.some.inj hc
    exact hBlank
  · intro c hc
    rw [quoted, ← List.cons_append, List.getLast?_concat, Option.some.injEq] at hc
    exact hc ▸ hBlank

theorem unquote_quoted (hQuote : quote = '"' ∨ quote = '\'') (value : List Char) :
    unquote (quoted quote value) = value := by
  have hMark : (quote == '"' || quote == '\'') = true := by
    rcases hQuote with rfl | rfl <;> decide
  rw [quoted, unquote, hMark, List.getLast?_concat, Bool.true_and, if_pos BEq.rfl,
    List.dropLast_concat]

/-- White space in front of a line does not matter. -/
theorem assignment?_append_left (h : IsPadding before) (cs : List Char) :
    assignment? (before ++ cs) = assignment? cs := by
  unfold assignment?
  rw [Text.trim_append_left h.isBlank]

/-- White space behind a line does not matter. -/
theorem assignment?_append_right (h : ∀ c ∈ after, isBlank c = true) (cs : List Char) :
    assignment? (cs ++ after) = assignment? cs := by
  unfold assignment?
  rw [Text.trim_append_right h]

/-- A line with a name and a quoted value assigns the value without its quotes. -/
theorem assignment?_quoted (hKey : IsKey key) (hQuote : quote = '"' ∨ quote = '\'')
    (hBehind : IsPadding behind) (hFront : IsPadding front) (value : String) :
    assignment? (key.toList ++ behind ++ '=' :: (front ++ quoted quote value.toList)) =
      some (key, value) := by
  obtain ⟨hCut, hName⟩ := hKey.cut hBehind (front ++ quoted quote value.toList)
  obtain ⟨c, r, hText⟩ := List.exists_cons_of_ne_nil (mt String.toList_eq_nil_iff.1 hKey.nonempty)
  have hComment : c ≠ '#' := by
    intro hc
    exact hKey.noComment (by rw [hText, hc, List.head?_cons])
  have hSelf : trim (key.toList ++ behind ++ '=' :: (front ++ quoted quote value.toList)) =
      key.toList ++ behind ++ '=' :: (front ++ quoted quote value.toList) := by
    apply Text.trim_eq_self
    · intro d hd
      have hHead : (trim key.toList).head? = some d := by
        rw [trim_toList, hKey.trimmed, hText]
        rw [hText] at hd
        exact hd
      exact Text.isBlank_of_head?_trim hHead
    · intro d hd
      have hEnd : key.toList ++ behind ++ '=' :: (front ++ quoted quote value.toList) =
          (key.toList ++ behind ++ '=' :: (front ++ quote :: value.toList)) ++ [quote] := by
        simp [quoted]
      rw [hEnd, List.getLast?_concat, Option.some.injEq] at hd
      exact hd ▸ isBlank_quote hQuote
  have hHead : (key.toList ++ behind ++ '=' :: (front ++ quoted quote value.toList)).head? ≠
      some '#' := by
    rw [hText]
    simpa using hComment
  unfold assignment?
  simp only [hSelf, if_neg hHead, hCut, hName, trim_quoted hQuote hFront, unquote_quoted hQuote]
  rw [if_neg (by simp [hText]), String.ofList_toList, String.ofList_toList]

/-- A line holds the assignment that is written on it. -/
theorem Line.assignment?_eq (h : Line cs a) : assignment? cs = a := by
  cases h with
  | assignment hKey _ hQuote hBefore hBehind hFront hAfter =>
    rw [assignment?_append_right hAfter.isBlank, assignment?_append_left hBefore,
      assignment?_quoted hKey hQuote hBehind hFront]
  | blank h =>
    rw [← List.append_nil cs, assignment?_append_left h]
    rfl
  | comment hBefore =>
    rw [assignment?_append_left hBefore]
    unfold assignment?
    rw [Text.trim_cons (by decide)]
    rfl
  | noEquals _ hEquals =>
    have hNone : cutAt? '=' (trim cs) = none :=
      cutAt?_eq_none_iff.2 fun hMem => hEquals (Text.mem_of_mem_trim hMem)
    unfold assignment?
    simp only [hNone, ite_self]
  | noKey hBefore =>
    rw [assignment?_append_left hBefore]
    unfold assignment?
    rw [Text.trim_cons (by decide)]
    rfl

/-- No line holds the end of one. -/
theorem Line.oneLine (h : Line cs a) : '\n' ∉ cs := by
  cases h with
  | @assignment _ _ quote _ _ _ _ hKey hValue hQuote hBefore hBehind hFront hAfter =>
    have hMark : '\n' ≠ quote := by
      rcases hQuote with rfl | rfl <;> decide
    simp [quoted, hKey.oneLine, hValue, hMark, hBefore.oneLine, hBehind.oneLine, hFront.oneLine,
      hAfter.oneLine]
  | blank h => exact h.oneLine
  | comment hBefore hRest => simp [hBefore.oneLine, hRest]
  | noEquals hLine => exact hLine
  | noKey hBefore hRest => simp [hBefore.oneLine, hRest]

end Line

/-! ### A text of lines -/

section Written

variable {cs text : List Char} {a : Option (String × String)}
  {assignments rest : List (String × String)}

/-- A line in front of others is read by itself. -/
theorem filterMap_splitOn_append (hLine : '\n' ∉ cs) (ha : assignment? cs = a)
    (text : List Char) :
    (splitOn '\n' (cs ++ '\n' :: text)).filterMap assignment? =
      a.toList ++ (splitOn '\n' text).filterMap assignment? := by
  rw [Text.splitOn_append_sep, Text.splitOn_eq_singleton hLine, List.singleton_append]
  cases a with
  | none => rw [List.filterMap_cons_none ha, Option.toList_none, List.nil_append]
  | some a => rw [List.filterMap_cons_some ha, Option.toList_some, List.singleton_append]

/-- The assignments that are read are those that are written, in their order. -/
theorem Written.filterMap_splitOn (h : Written text assignments) :
    (splitOn '\n' text).filterMap assignment? = assignments := by
  induction h with
  | @last line a h =>
    have hRead := h.assignment?_eq
    rw [Text.splitOn_eq_singleton h.oneLine]
    cases a with
    | none => rw [List.filterMap_cons_none hRead, List.filterMap_nil, Option.toList_none]
    | some a => rw [List.filterMap_cons_some hRead, List.filterMap_nil, Option.toList_some]
  | lf h _ ih => rw [filterMap_splitOn_append h.oneLine h.assignment?_eq, ih]
  | @crlf line text a rest h _ ih =>
    have hEnd : ∀ c ∈ ['\r'], isBlank c = true := List.forall_mem_singleton.2 rfl
    have hRead : assignment? (line ++ ['\r']) = a := by
      rw [assignment?_append_right hEnd, h.assignment?_eq]
    have hLine : '\n' ∉ line ++ ['\r'] := by simp [h.oneLine]
    have hText : line ++ '\r' :: '\n' :: text = (line ++ ['\r']) ++ '\n' :: text := by simp
    rw [hText, filterMap_splitOn_append hLine hRead, ih]

/-- A text gives the variables of the assignments that are written in it, whatever stands between
the quotes: each has the value of its last assignment, and there are no others. -/
theorem ofText_of_written {text : String} {assignments : List (String × String)}
    (h : Written text.toList assignments) :
    (∀ before key value after, assignments = before ++ (key, value) :: after → key ∉ keys after →
      find? (ofText text) key = some value) ∧
      (∀ key, key ∉ keys assignments → find? (ofText text) key = none) ∧
      (ofText text).length = (keys assignments).eraseDups.length := by
  have hRead : ofText text = OrderedMap.ofList assignments := by
    rw [ofText, h.filterMap_splitOn]
  have hKeys := OrderedMap.keys_ofList assignments
  rw [hRead]
  refine ⟨?_, ?_, ?_⟩
  · rintro before key value after rfl hLast
    exact OrderedMap.find?_ofList_of_last hLast
  · intro key hKey
    rwa [OrderedMap.find?_eq_none_iff, hKeys, List.mem_eraseDups]
  · rw [← hKeys, keys, List.length_map]

/-- A text with a line of each kind, in which one variable is assigned twice. -/
def mixedText : String :=
  "# note\r\n\tA =\" x='1'#\" \n\nplain\n =none\nB='it\"s'\r\nA='\"'"

theorem isKey_letter (key : String) (h : key = "A" ∨ key = "B") : IsKey key := by
  rcases h with rfl | rfl <;> exact ⟨by decide, by decide, by decide, by decide, by decide⟩

theorem written_mixedText :
    Written mixedText.toList [("A", " x='1'#"), ("B", "it\"s"), ("A", "\"")] := by
  have hNote : Line "# note".toList none :=
    @Line.comment [] " note".toList (by simp [IsPadding]) (by decide)
  have hFirst : Line "\tA =\" x='1'#\" ".toList (some ("A", " x='1'#")) :=
    @Line.assignment "A" " x='1'#" '"' ['\t'] [' '] [] [' '] (isKey_letter "A" (.inl rfl))
      (by decide) (.inl rfl) (by simp [IsPadding, isBlank]) (by simp [IsPadding, isBlank])
      (by simp [IsPadding]) (by simp [IsPadding, isBlank])
  have hBlank : Line [] none := .blank (by simp [IsPadding])
  have hPlain : Line "plain".toList none := .noEquals (by decide) (by decide)
  have hNoKey : Line " =none".toList none :=
    @Line.noKey [' '] "none".toList (by simp [IsPadding, isBlank]) (by decide)
  have hSecond : Line "B='it\"s'".toList (some ("B", "it\"s")) :=
    @Line.assignment "B" "it\"s" '\'' [] [] [] [] (isKey_letter "B" (.inr rfl)) (by decide)
      (.inr rfl) (by simp [IsPadding]) (by simp [IsPadding]) (by simp [IsPadding])
      (by simp [IsPadding])
  have hLast : Line "A='\"'".toList (some ("A", "\"")) :=
    @Line.assignment "A" "\"" '\'' [] [] [] [] (isKey_letter "A" (.inl rfl)) (by decide)
      (.inr rfl) (by simp [IsPadding]) (by simp [IsPadding]) (by simp [IsPadding])
      (by simp [IsPadding])
  exact .crlf hNote (.lf hFirst (.lf hBlank (.lf hPlain (.lf hNoKey (.crlf hSecond
    (.last hLast))))))

theorem ofText_of_written_mixedText :
    Written mixedText.toList [("A", " x='1'#"), ("B", "it\"s"), ("A", "\"")] ∧
      find? (ofText mixedText) "A" = some "\"" ∧ find? (ofText mixedText) "plain" = none ∧
      (ofText mixedText).length = 2 := by
  obtain ⟨hLast, hOther, hLength⟩ := ofText_of_written written_mixedText
  refine ⟨written_mixedText, ?_, ?_, hLength.trans (by decide)⟩
  · exact hLast [("A", " x='1'#"), ("B", "it\"s")] "A" "\"" [] rfl (by decide)
  · exact hOther "plain" (by decide)

end Written

end KubeCompose.DotEnv
