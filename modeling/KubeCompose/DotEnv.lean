import KubeCompose.Name
import KubeCompose.Text.Fields

/-!
# Variables of a project

A project's variables stand one a line as `KEY=VALUE`. A reference in braces behind a dollar sign
stands for a variable's value, and is left as it is when the variable is unknown. The name of
another container that ends in `_ctr`, before a colon, stands for the name of its service.
-/

namespace KubeCompose

open Text (trim splitOn cutAt?)

/-- Variables in the order in which they first appear. -/
abbrev DotEnv := OrderedMap String String

namespace DotEnv

/-- A text without the quotes around it, when both are the same. -/
def unquote (cs : List Char) : List Char :=
  match cs with
  | q :: r => if (q == '"' || q == '\'') && r.getLast? == some q then r.dropLast else cs
  | [] => []

/-- The assignment on a line. Blank lines, comments, lines without `=` and lines without a key hold
none. -/
def assignment? (line : List Char) : Option (String × String) :=
  let line := trim line
  if line.head? = some '#' then none
  else
    match cutAt? '=' line with
    | none => none
    | some (key, value) =>
      let key := trim key
      if key.isEmpty then none
      else some (String.ofList key, String.ofList (unquote (trim value)))

/-- The variables that a text assigns. -/
def ofText (text : String) : DotEnv :=
  OrderedMap.ofList ((splitOn '\n' text.toList).filterMap assignment?)

/-- The text behind a cut is shorter than the text that was cut. -/
theorem length_lt_of_cutAt? {sep : Char} {cs before after : List Char}
    (h : cutAt? sep cs = some (before, after)) : after.length < cs.length := by
  induction cs generalizing before with
  | nil => simp [cutAt?] at h
  | cons c r ih =>
    rw [cutAt?] at h
    split at h
    · simp only [Option.some.injEq, Prod.mk.injEq] at h
      simp [← h.2]
    · obtain ⟨⟨b, a⟩, hb, he⟩ := Option.map_eq_some_iff.1 h
      simp only [Prod.mk.injEq] at he
      have := ih (he.2 ▸ hb)
      simp only [List.length_cons]
      omega

/-- Puts values in place of the references in a text. The value is not searched again. -/
def substituteChars (vars : DotEnv) (cs : List Char) : List Char :=
  match cs with
  | '$' :: '{' :: t =>
    match _h : cutAt? '}' t with
    | some (n :: name, rest) =>
      let value :=
        match OrderedMap.find? vars (String.ofList (n :: name)) with
        | some v => v.toList
        | none => '$' :: '{' :: n :: name ++ ['}']
      value ++ substituteChars vars rest
    | _ => '$' :: substituteChars vars ('{' :: t)
  | c :: r => c :: substituteChars vars r
  | [] => []
termination_by cs.length
decreasing_by
  · have := length_lt_of_cutAt? _h
    simp only [List.length_cons]
    omega
  all_goals simp

/-- A text with the values of the variables in place of the references to them. -/
def substitute (vars : DotEnv) (text : String) : String :=
  String.ofList (substituteChars vars text.toList)

end DotEnv

namespace Alias

/-- A character of a container name: an ASCII letter or digit or `_`. -/
def isNameChar (c : Char) : Bool := c.isAlphanum || c == '_'

/-- The name of the service behind a container name that ends in `_ctr`. -/
def serviceName? (run : List Char) : Option (List Char) :=
  match run.reverse with
  | 'r' :: 't' :: 'c' :: '_' :: c :: before =>
    some (Name.normalChars (c :: before).reverse ++ "-ctr".toList)
  | _ => none

/-- Puts service names in place of the container names in a text. -/
def expandChars (cs : List Char) : List Char :=
  match cs with
  | [] => []
  | c :: r =>
    if isNameChar c then
      let run := c :: r.takeWhile isNameChar
      let rest := r.dropWhile isNameChar
      let shown :=
        if rest.head? = some ':' then (serviceName? run).getD run else run
      shown ++ expandChars rest
    else c :: expandChars r
termination_by cs.length
decreasing_by
  · have := (List.dropWhile_sublist (p := isNameChar) (l := r)).length_le
    simp only [List.length_cons]
    omega
  · simp

/-- A text with the names of services in place of the container names before a colon. -/
def expand (text : String) : String := String.ofList (expandChars text.toList)

end Alias

end KubeCompose
