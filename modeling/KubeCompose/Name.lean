import KubeCompose.OrderedMap
import KubeCompose.Text.Blank
import KubeCompose.Text.Lowercase

/-!
# Object names

The name of an object is a DNS label: lower-case letters, digits and inner dashes, at most 63
characters. `Name.normalize` makes a label of any text that holds a letter or a digit: the runs of
letters and digits joined by single dashes. `Name.assign` normalizes the names of a project and
refuses two that become one.
-/

namespace KubeCompose.Name

open Text (asciiLower dropTrailing)

/-- The longest name. -/
def maxLength : Nat := 63

/-- A lower-case ASCII letter or a digit. -/
def isLabelChar (c : Char) : Bool := ('a' ≤ c && c ≤ 'z') || ('0' ≤ c && c ≤ '9')

/-- The label characters of a text in lower case, with one dash for each run of other characters.
`atDash` holds at the start and behind a dash, where no further one is written. -/
def collapse (atDash : Bool) : List Char → List Char
  | [] => []
  | c :: r =>
    let d := asciiLower c
    if isLabelChar d then d :: collapse false r
    else if atDash then collapse true r
    else '-' :: collapse true r

/-- The characters of the normal form of a text. -/
def normalChars (cs : List Char) : List Char :=
  dropTrailing (· == '-') ((collapse true cs).take maxLength)

/-- The normal form of a text; it is empty when the text holds no letter or digit. -/
def normalize (s : String) : String := String.ofList (normalChars s.toList)

/-- Whether the characters are a label. -/
def isLabelChars (cs : List Char) : Bool :=
  cs.length ≤ maxLength && cs.all (fun c => isLabelChar c || c == '-') &&
    cs.head?.any isLabelChar && cs.getLast?.any isLabelChar

/-- Whether a text is a label. -/
def isLabel (s : String) : Bool := isLabelChars s.toList

/-- Why a name cannot be used. -/
inductive Error where
  | empty (input : String)
  | conflict (first second name : String)
  deriving DecidableEq, Repr

/-- The wording of an error. -/
def Error.message : Error → String
  | .empty input =>
    "'" ++ input ++ "' does not contain any character usable in a Kubernetes name"
  | .conflict first second name =>
    "Services '" ++ first ++ "' and '" ++ second ++ "' both normalize to Kubernetes name '" ++
      name ++ "'"

/-- The name of an object made from a text. -/
def ofText (s : String) : Except Error String :=
  let name := normalize s
  if name = "" then .error (.empty s) else .ok name

/-- Names for the texts of a list, in order. `taken` holds the names given before, each with the
text it was made from. -/
def assignFrom (taken : List (String × String)) :
    List String → Except Error (List (String × String))
  | [] => .ok []
  | s :: rest => do
    let name ← ofText s
    match taken.lookup name with
    | some first => throw (.conflict first s name)
    | none => return (s, name) :: (← assignFrom ((name, s) :: taken) rest)

/-- The name for each text of a list, in order; no two are the same. -/
def assign (texts : List String) : Except Error (List (String × String)) := assignFrom [] texts

end KubeCompose.Name
