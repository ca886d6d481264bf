/-!
# Cutting a text at a separator

`splitOn` cuts at every occurrence, `cutAt` at the first one. Both work on lists of characters, so
that a piece never contains the separator and the pieces rejoin to the text.
-/

namespace KubeCompose.Text

/-- The pieces between the occurrences of `sep`; there is always at least one. -/
def splitOn (sep : Char) : List Char → List (List Char)
  | [] => [[]]
  | c :: r =>
    if c = sep then [] :: splitOn sep r
    else
      match splitOn sep r with
      | [] => [[c]]
      | piece :: rest => (c :: piece) :: rest

/-- The text before the first `sep` and the text after it, when there is one. -/
def cutAt? (sep : Char) : List Char → Option (List Char × List Char)
  | [] => none
  | c :: r =>
    if c = sep then some ([], r)
    else (cutAt? sep r).map fun (before, after) => (c :: before, after)

/-- The text before the last `sep` and the text after it, when there is one. -/
def cutAtLast? (sep : Char) : List Char → Option (List Char × List Char)
  | [] => none
  | c :: r =>
    match cutAtLast? sep r with
    | some (before, after) => some (c :: before, after)
    | none => if c = sep then some ([], r) else none

/-- The text before the first `sep`, or all of it. -/
def before (sep : Char) (cs : List Char) : List Char := cs.takeWhile (· != sep)

/-- The text with a leading `start` taken off, when it begins with it. -/
def dropStart? (start : List Char) (cs : List Char) : Option (List Char) :=
  if start.isPrefixOf cs then some (cs.drop start.length) else none

/-- The text without any number of copies of `start` in front. -/
def dropStarts (start cs : List Char) : List Char :=
  match dropStart? start cs with
  | some rest => if rest.length < cs.length then dropStarts start rest else cs
  | none => cs
termination_by cs.length

/-- The text with a closing `tail` taken off, when it ends in it. -/
def dropEnd? (tail : List Char) (cs : List Char) : Option (List Char) :=
  (dropStart? tail.reverse cs.reverse).map List.reverse

/-- Whether `cs` begins with the text `start`. -/
def startsWith (cs : List Char) (start : String) : Bool := start.toList.isPrefixOf cs

/-- Whether `part` occurs somewhere in `cs`. -/
def containsText (part : List Char) : List Char → Bool
  | [] => part.isEmpty
  | c :: r => part.isPrefixOf (c :: r) || containsText part r

/-- The texts with `sep` between each two. -/
def join (sep : String) : List String → String
  | [] => ""
  | [s] => s
  | s :: rest => s ++ sep ++ join sep rest

theorem splitOn_ne_nil (sep : Char) (cs : List Char) : splitOn sep cs ≠ [] := by
  cases cs with
  | nil => simp [splitOn]
  | cons c r =>
    rw [splitOn]
    split
    · simp
    · split <;> simp

end KubeCompose.Text
