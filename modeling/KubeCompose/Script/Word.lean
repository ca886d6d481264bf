import KubeCompose.Text.Fields

/-!
# Words of a script

A word is a row of pieces: text, and pieces for which a value stands in. With all values in place it
is a row of parts. Quoted parts are taken as they are; blanks divide an unquoted value into fields,
and in an unquoted text `*` and `?` stand for any text and any character where a pattern is wanted.
-/

namespace KubeCompose.Script

/-- A piece of a word as written: text, a parameter with the text that stands for it when it is
empty, the output of a script, and the value of a calculation. -/
inductive Piece where
  | text (chars : List Char) (quoted : Bool)
  | parameter (name : String) (otherwise : List Char) (quoted : Bool)
  | output (script : List Char) (quoted : Bool)
  | number (expression : List Char)
  deriving DecidableEq, Repr

/-- A word as written. -/
abbrev Word := List Piece

/-- The text of a word without values and quotes, as it stands in a script. -/
def Word.plain? : Word → Option String
  | [.text chars false] => some (String.ofList chars)
  | _ => none

/-- A part of a word in which all values are in place. -/
inductive Part where
  | text (chars : List Char) (quoted : Bool)
  | value (text : String) (quoted : Bool)
  | each (texts : List String)
  deriving DecidableEq, Repr

/-! ### Fields -/

/-- The fields that are complete, and the one to which more may be added. -/
structure Fields where
  complete : List String
  current : Option String

namespace Fields

/-- No fields. -/
def none : Fields := ⟨[], .none⟩

/-- Adds a text to the current field. -/
def append (f : Fields) (text : String) : Fields :=
  { f with current := some (f.current.getD "" ++ text) }

/-- Completes the current field. -/
def close (f : Fields) : Fields := ⟨f.complete ++ f.current.toList, .none⟩

/-- Adds texts of which each but the last completes a field. -/
def appendEach (f : Fields) : List String → Fields
  | [] => f
  | [text] => f.append text
  | text :: rest => (f.append text).close.appendEach rest

/-- Adds the texts between blanks; an empty one stands for no field. -/
def appendRuns (f : Fields) : List String → Fields
  | [] => f
  | run :: rest =>
    let f := if run = "" then f else f.append run
    if rest.isEmpty then f else f.close.appendRuns rest

/-- Adds a part of a word. -/
def add (f : Fields) : Part → Fields
  | .text chars _ => f.append (String.ofList chars)
  | .value text true => f.append text
  | .value text false =>
    let spaced := text.toList.map fun c => if c = '\t' ∨ c = '\n' then ' ' else c
    f.appendRuns ((Text.splitOn ' ' spaced).map String.ofList)
  | .each texts => f.appendEach texts

end Fields

/-- The fields of a word. -/
def fieldsOf (parts : List Part) : List String := (parts.foldl Fields.add .none).close.complete

/-- The text of a word that is not divided. -/
def textOf (parts : List Part) : String :=
  String.join <| parts.map fun part =>
    match part with
    | .text chars _ => String.ofList chars
    | .value text _ => text
    | .each texts => Text.join " " texts

/-! ### Patterns -/

/-- A part of a pattern. -/
inductive Wildcard where
  | exactly (c : Char)
  | anyChar
  | anyText
  deriving DecidableEq, Repr

/-- The pattern of a word. -/
def patternOf (parts : List Part) : List Wildcard :=
  parts.flatMap fun part =>
    match part with
    | .text chars false =>
      chars.map fun c => if c = '*' then .anyText else if c = '?' then .anyChar else .exactly c
    | part => (textOf [part]).toList.map .exactly

/-- A text and all its ends. -/
def ends : List Char → List (List Char)
  | [] => [[]]
  | c :: r => (c :: r) :: ends r

/-- Whether a pattern fits a text. -/
def fits : List Wildcard → List Char → Bool
  | [], cs => cs.isEmpty
  | .exactly p :: rest, c :: r => p == c && fits rest r
  | .anyChar :: rest, _ :: r => fits rest r
  | .anyText :: rest, cs => (ends cs).any (fits rest)
  | _ :: _, [] => false

end KubeCompose.Script
