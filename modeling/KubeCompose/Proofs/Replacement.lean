import Mathlib.Data.List.Infix

/-!
# Replacing matches from left to right

A text is read from its start. Where a match begins, what it is shown as is written and the reading
goes on behind it; where none begins, the character is kept. What is written is not read again, and
a match that begins further to the left is never passed over for a later one. `Replaced` says so for
any kind of match. A text can be replaced in one way only, so that a function which replaces is
known by this relation alone.
-/

namespace KubeCompose.Text

/-- A kind of match at the start of a text, with what the match is shown as and what follows it. A
text has at most one, which is not empty. -/
structure Pattern where
  Begins : List Char → List Char → List Char → Prop
  nonempty : ∀ shown rest, ¬ Begins [] shown rest
  unique : ∀ {cs shown shown' rest rest'}, Begins cs shown rest → Begins cs shown' rest' →
    shown = shown' ∧ rest = rest'

/-- No match begins a text. -/
def Pattern.NoneAt (p : Pattern) (cs : List Char) : Prop := ∀ shown rest, ¬ p.Begins cs shown rest

/-- A text and what it becomes when its matches are replaced from left to right. -/
inductive Replaced (p : Pattern) : List Char → List Char → Prop
  | nil : Replaced p [] []
  | found {cs shown rest out : List Char} (hFound : p.Begins cs shown rest)
    (hRest : Replaced p rest out) : Replaced p cs (shown ++ out)
  | kept {c : Char} {cs out : List Char} (hNone : p.NoneAt (c :: cs)) (hRest : Replaced p cs out) :
    Replaced p (c :: cs) (c :: out)

variable {p : Pattern} {c : Char} {cs ds shown rest out out' : List Char}

/-- What a match is shown as comes first. -/
theorem Replaced.of_begins (hFound : p.Begins cs shown rest) (h : Replaced p cs out) :
    ∃ out', Replaced p rest out' ∧ out = shown ++ out' := by
  cases h with
  | nil => exact absurd hFound (p.nonempty shown rest)
  | found hFound' hRest =>
    obtain ⟨rfl, rfl⟩ := p.unique hFound hFound'
    exact ⟨_, hRest, rfl⟩
  | kept hNone => exact absurd hFound (hNone shown rest)

/-- A character at which no match begins comes first. -/
theorem Replaced.of_noneAt (hNone : p.NoneAt (c :: cs)) (h : Replaced p (c :: cs) out) :
    ∃ out', Replaced p cs out' ∧ out = c :: out' := by
  cases h with
  | found hFound => exact absurd hFound (hNone _ _)
  | kept _ hRest => exact ⟨_, hRest, rfl⟩

/-- Where no match begins, the first character is the one that is written first. -/
theorem Replaced.exists_cons (hNone : p.NoneAt cs) (h : Replaced p cs (c :: out)) :
    ∃ r, cs = c :: r ∧ Replaced p r out := by
  cases cs with
  | nil =>
    generalize hOut : c :: out = written at h
    cases h with
    | nil => simp at hOut
    | found hFound => exact absurd hFound (hNone _ _)
  | cons d r =>
    obtain ⟨behind, hBehind, hOut⟩ := h.of_noneAt hNone
    obtain ⟨rfl, rfl⟩ := List.cons.inj hOut
    exact ⟨r, rfl, hBehind⟩

/-- A text is replaced in one way only. -/
theorem Replaced.unique (h : Replaced p cs out) (h' : Replaced p cs out') : out = out' := by
  induction h generalizing out' with
  | nil =>
    cases h' with
    | nil => rfl
    | found hFound => exact absurd hFound (p.nonempty _ _)
  | found hFound _ ih =>
    obtain ⟨behind, hBehind, rfl⟩ := h'.of_begins hFound
    rw [ih hBehind]
  | kept hNone _ ih =>
    obtain ⟨behind, hBehind, rfl⟩ := h'.of_noneAt hNone
    rw [ih hBehind]

/-- A text in which no match begins is kept in front of another one. -/
theorem Replaced.append (hNone : ∀ t, t ≠ [] → t <:+ cs → p.NoneAt (t ++ ds))
    (h : Replaced p ds out) : Replaced p (cs ++ ds) (cs ++ out) := by
  induction cs with
  | nil => exact h
  | cons c r ih =>
    refine .kept (hNone (c :: r) (List.cons_ne_nil c r) List.suffix_rfl) (ih ?_)
    intro t hNonempty hSuffix
    exact hNone t hNonempty (hSuffix.trans (List.suffix_cons c r))

/-- A text in which no match begins stays as it is. -/
theorem Replaced.self (hNone : ∀ t, t <:+ cs → p.NoneAt t) : Replaced p cs cs := by
  have hAppend : Replaced p (cs ++ []) (cs ++ []) := by
    refine .append ?_ .nil
    intro t _ hSuffix
    rw [List.append_nil]
    exact hNone t hSuffix
  rwa [List.append_nil] at hAppend

end KubeCompose.Text
