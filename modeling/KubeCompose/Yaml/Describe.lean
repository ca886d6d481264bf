import KubeCompose.Text.Blank
import KubeCompose.Text.Quoted
import KubeCompose.Yaml.Nesting

/-!
# Values as text

The texts of values that are no documents: those that stand in messages, and those that stand where
only a text can.
-/

namespace KubeCompose.Yaml

open Number (decimalInt)
open Text (quoted)

/-- The text of a value where only a text can stand: a text is itself, null is empty, and a
collection is its document without the line end, or empty when the document has no text. -/
def plainText : Yaml → String
  | .null => ""
  | .bool b => if b then "true" else "false"
  | .int n => Number.decimalInt n
  | .float x => x.text
  | .str s => s
  | v =>
    match write v with
    | .ok text => Text.trimmedEnd text
    | .error _ => ""

/-! ### Messages -/

/-- A value as a message names it when another one was expected. -/
def found : Yaml → String
  | .null => "unit value"
  | .bool b => "boolean `" ++ (if b then "true" else "false") ++ "`"
  | .int n => "integer `" ++ decimalInt n ++ "`"
  | .float x => "floating point `" ++ x.plainText ++ "`"
  | .str s => "string " ++ quoted s
  | .seq _ => "sequence"
  | .map _ => "map"
  | .tagged .. => "enum"

mutual

/-- The full structure of a value as a message shows it. -/
def structureText : Yaml → String
  | .null => "Null"
  | .bool b => "Bool(" ++ (if b then "true" else "false") ++ ")"
  | .int n => "Number(" ++ decimalInt n ++ ")"
  | .float x => "Number(" ++ x.text ++ ")"
  | .str s => "String(" ++ quoted s ++ ")"
  | .seq items => "Sequence [" ++ itemsText items ++ "]"
  | .map entries => "Mapping \x7b" ++ entriesText entries ++ "\x7d"
  | .tagged tag v =>
    "TaggedValue \x7b tag: !" ++ tag ++ ", value: " ++ structureText v ++ " \x7d"

/-- A key of a mapping inside a structure: scalars stand for themselves. -/
def keyText : Yaml → String
  | .bool b => if b then "true" else "false"
  | .int n => decimalInt n
  | .float x => x.text
  | .str s => quoted s
  | .null => "Null"
  | .seq items => "Sequence [" ++ itemsText items ++ "]"
  | .map entries => "Mapping \x7b" ++ entriesText entries ++ "\x7d"
  | .tagged tag v =>
    "TaggedValue \x7b tag: !" ++ tag ++ ", value: " ++ structureText v ++ " \x7d"

/-- The items of a sequence inside a structure. -/
def itemsText : List Yaml → String
  | [] => ""
  | [v] => structureText v
  | v :: r => structureText v ++ ", " ++ itemsText r

/-- The entries of a mapping inside a structure. -/
def entriesText : List (Yaml × Yaml) → String
  | [] => ""
  | [(k, v)] => keyText k ++ ": " ++ structureText v
  | (k, v) :: r => keyText k ++ ": " ++ structureText v ++ ", " ++ entriesText r

end

end KubeCompose.Yaml
