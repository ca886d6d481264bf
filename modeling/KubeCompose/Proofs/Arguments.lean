import KubeCompose.CommandLine.Arguments
import KubeCompose.Yaml.Nesting

/-!
# What the arguments of a request are

Each value that is found stands behind an option of the command and is one that the rule of this
option accepts, however the option is written. So a conversion is never asked for without the path
of a directory.
-/

namespace KubeCompose.CommandLine

open Text (cutAt?)
open Yaml (exists_of_bind_eq_ok exists_of_map_eq_ok)

variable {rules : List OptionRule} {rule : OptionRule} {f g : Found}
  {long value argument name : String} {rest rest' arguments : List String}
  {command : Option String}

namespace Found

/-- The options that were found are accepted by the rules. -/
def Accepted (rules : List OptionRule) (f : Found) : Prop :=
  ∀ o ∈ f.options, ∃ rule ∈ rules, rule.long = o.1 ∧ rule.accepts o.2 = true

theorem accepted_empty (rules : List OptionRule) : Accepted rules .empty :=
  fun _ h => absurd h List.not_mem_nil

/-- An option is noted with a value that its rule accepts. -/
theorem Accepted.note (h : Accepted rules f) (hRule : rule ∈ rules)
    (hNote : f.note rule value = .ok g) : Accepted rules g := by
  rw [Found.note] at hNote
  split at hNote
  · rename_i hTaken
    rw [Bool.and_eq_true] at hTaken
    obtain rfl := Except.ok.inj hNote
    intro o ho
    rcases List.mem_append.1 ho with hOld | hNew
    · exact h o hOld
    · rw [List.mem_singleton.1 hNew]
      exact ⟨rule, hRule, rfl, hTaken.1⟩
  · simp at hNote

theorem Accepted.of_value? (h : Accepted rules f) (hValue : f.value? long = some value) :
    ∃ rule ∈ rules, rule.long = long ∧ rule.accepts value = true := by
  obtain ⟨before, after, hOptions, -⟩ := List.lookup_eq_some_iff.1 hValue
  exact h (long, value) (by simp [hOptions])

end Found

open Found (Accepted)

/-! ### Reading -/

section Read

variable (h : Accepted rules f)
include h

/-- An option is noted and the reading goes on behind it. -/
theorem accepted_of_map_note (hRule : rule ∈ rules)
    (hNote : (f.note rule value).map (·, rest) = .ok (g, rest')) : Accepted rules g := by
  obtain ⟨f', hResult, hPair⟩ := exists_of_map_eq_ok hNote
  obtain ⟨rfl, -⟩ := Prod.mk.inj hPair
  exact h.note hRule hResult

theorem accepted_of_readLong {body : List Char}
    (hRead : readLong command rules f body rest = .ok (g, rest')) : Accepted rules g := by
  rw [readLong] at hRead
  split at hRead
  split at hRead
  · simp at hRead
  · simp at hRead
  · split at hRead
    · simp at hRead
    · rename_i hFind _ _ _
      split at hRead
      · exact accepted_of_map_note h (List.mem_of_find?_eq_some hFind) hRead
      · simp at hRead
    · rename_i hFind _ _ _
      split at hRead
      · obtain ⟨_, -, hNote⟩ := exists_of_bind_eq_ok hRead
        exact accepted_of_map_note h (List.mem_of_find?_eq_some hFind) hNote
      · exact accepted_of_map_note h (List.mem_of_find?_eq_some hFind) hRead

end Read

theorem accepted_of_readShort {cs : List Char} (h : Accepted rules f)
    (hRead : readShort command rules f cs rest = .ok (g, rest')) : Accepted rules g := by
  fun_induction readShort command rules f cs rest with
  | case1 f rest =>
    obtain ⟨rfl, -⟩ := Prod.mk.inj (Except.ok.inj hRead)
    exact h
  | case5 f c rest hHelp hVersion rule hFind hTakes =>
    obtain ⟨_, -, hNote⟩ := exists_of_bind_eq_ok hRead
    simp only [bind_pure_comp] at hNote
    exact accepted_of_map_note h (List.mem_of_find?_eq_some hFind) hNote
  | case6 f c rest hHelp hVersion rule hFind hTakes value =>
    exact accepted_of_map_note h (List.mem_of_find?_eq_some hFind) hRead
  | case7 f c rest hHelp hVersion rule hFind hTakes value =>
    exact accepted_of_map_note h (List.mem_of_find?_eq_some hFind) hRead
  | case8 f c more rest hHelp hVersion rule hFind hTakes ih =>
    obtain ⟨f', hNote, hRest⟩ := exists_of_bind_eq_ok hRead
    exact ih f' (h.note (List.mem_of_find?_eq_some hFind) hNote) hRest
  | _ => simp at hRead

theorem accepted_of_readOption (h : Accepted rules f)
    (hRead : readOption command rules f argument rest = .ok (g, rest')) : Accepted rules g := by
  rw [readOption] at hRead
  split at hRead
  · exact accepted_of_readLong h hRead
  · exact accepted_of_readShort h hRead
  · simp at hRead

/-- Another argument than an option changes no option. -/
theorem accepted_of_foldlM {take : Found → String → Except ArgumentsEnd Found}
    (hTake : ∀ f path g, take f path = .ok g → g.options = f.options) (h : Accepted rules f)
    (hFold : rest.foldlM take f = .ok g) : Accepted rules g := by
  induction rest generalizing f with
  | nil => rwa [← Except.ok.inj hFold]
  | cons path rest ih =>
    rw [List.foldlM_cons] at hFold
    obtain ⟨f', hFirst, hRest⟩ := exists_of_bind_eq_ok hFold
    refine ih (f := f') ?_ hRest
    rwa [Accepted, hTake f path f' hFirst]

theorem accepted_of_readAll {n : Nat} (h : Accepted rules f)
    (hRead : readAll name rules n f rest = .ok g) : Accepted rules g := by
  have hOther : ∀ (f : Found) (path : String) (g : Found),
      (if path != "" && f.others.isEmpty then .ok { f with others := [path] }
        else .error .usage : Except ArgumentsEnd Found) = .ok g → g.options = f.options := by
    intro f path g hTake
    split at hTake
    · rw [← Except.ok.inj hTake]
    · simp at hTake
  induction n generalizing f rest with
  | zero =>
    rw [readAll, Except.ok.injEq] at hRead
    exact hRead ▸ h
  | succ n ih =>
    cases rest with
    | nil =>
      rw [readAll, Except.ok.injEq] at hRead
      exact hRead ▸ h
    | cons argument rest =>
      rw [readAll] at hRead
      split at hRead
      · exact accepted_of_foldlM hOther h hRead
      · split at hRead
        · obtain ⟨⟨f', rest'⟩, hOption, hRest⟩ := exists_of_bind_eq_ok hRead
          exact ih (accepted_of_readOption h hOption) hRest
        · obtain ⟨f', hTaken, hRest⟩ := exists_of_bind_eq_ok hRead
          refine ih (f := f') ?_ hRest
          rwa [Accepted, hOther f argument f' hTaken]

/-! ### Requests -/

/-- A command is read off options that its rules accept. -/
theorem exists_accepted {r : Request} (h : Request.ofArguments arguments = .ok r) :
    ∃ name rules f, rulesOf? name = some rules ∧ Accepted (rules ++ commonRules) f ∧
      f.command name = .ok r.command := by
  rw [Request.ofArguments] at h
  obtain ⟨⟨front, name, rest⟩, -, h⟩ := exists_of_bind_eq_ok h
  simp only at h
  split at h
  · cases h
  · split at h
    · cases h
    · rename_i rules hRules
      obtain ⟨f, hRead, h⟩ := exists_of_bind_eq_ok h
      obtain ⟨command, hCommand, rfl⟩ := exists_of_map_eq_ok h
      exact ⟨name, rules, f, hRules, accepted_of_readAll (Found.accepted_empty _) hRead, hCommand⟩

theorem accepts_empty_eq_false (h : rulesOf? "convert" = some rules) :
    ∀ rule ∈ rules ++ commonRules, rule.long = "output-dir" → rule.accepts "" = false := by
  obtain rfl := Option.some.inj h
  decide

/-- A conversion is asked for with the path of a directory. -/
theorem directory_ne_empty {r : Request} {a : ConvertArguments}
    (h : Request.ofArguments arguments = .ok r) (hCommand : r.command = .convert a) :
    a.directory ≠ "" := by
  obtain ⟨name, rules, f, hRules, hAccepted, hFound⟩ := exists_accepted h
  rw [hCommand] at hFound
  unfold Found.command at hFound
  split at hFound
  · obtain ⟨a', hArguments, hSame⟩ := exists_of_map_eq_ok hFound
    obtain rfl := Command.convert.inj hSame
    rw [Found.convertArguments] at hArguments
    split at hArguments
    · rename_i directory _ hDirectory
      obtain rfl := Except.ok.inj hArguments
      obtain ⟨rule, hRule, hLong, hAccepts⟩ := hAccepted.of_value? hDirectory
      have hRefuses := accepts_empty_eq_false hRules rule hRule hLong
      rintro (rfl : directory = "")
      exact absurd hAccepts (by simp [hRefuses])
    · cases hArguments
  · obtain ⟨_, -, hSame⟩ := exists_of_map_eq_ok hFound
    cases hSame
  · obtain ⟨_, -, hSame⟩ := exists_of_map_eq_ok hFound
    cases hSame
  · cases hFound

end KubeCompose.CommandLine
