import KubeCompose.Text.Fields
import KubeCompose.Yaml.Describe

/-!
# Reading records from values

A record is read from a mapping, field by field in the order of the mapping, so the first bad field
is the one reported. Unknown fields are passed over. A tag on a value does not matter here.

An alternative is a value of which several shapes are accepted. No tag may occur in it, and a value
of none of the shapes is refused as a whole, without a reason of its own. The shapes have their own
rules for mappings that repeat a key.
-/

namespace KubeCompose.Yaml

/-- Why a value is not what was expected. -/
inductive DecodeError where
  | wrongType (value : Yaml) (expected : String)
  | wrongValue (value : Yaml) (expected : String)
  | unknownVariant (name : String) (expected : List String)
  | duplicateField (name : String)
  | noAlternative (type : String)
  | taggedAlternative
  deriving Repr

/-- The wording of an error. -/
def DecodeError.message : DecodeError → String
  | .wrongType v expected => "invalid type: " ++ v.found ++ ", expected " ++ expected
  | .wrongValue v expected => "invalid value: " ++ v.found ++ ", expected " ++ expected
  | .unknownVariant name expected =>
    "unknown variant `" ++ name ++ "`, expected one of " ++
      Text.join ", " (expected.map fun e => "`" ++ e ++ "`")
  | .duplicateField name => "duplicate field `" ++ name ++ "`"
  | .noAlternative type => "data did not match any variant of untagged enum " ++ type
  | .taggedAlternative => "untagged and internally tagged enums do not support enum input"

/-- A value that can be read or refused. -/
abbrev Decoder (α : Type) := Yaml → Except DecodeError α

namespace Decode

/-- A text. -/
def text : Decoder String := fun v =>
  match v.untagged with
  | .str s => .ok s
  | w => .error (.wrongType w "a string")

/-- A truth value. -/
def bool : Decoder Bool := fun v =>
  match v.untagged with
  | .bool b => .ok b
  | w => .error (.wrongType w "a boolean")

/-- An integer between two bounds, of the type `name`. -/
def integer (low high : Int) (name : String) : Decoder Int := fun v =>
  match v.untagged with
  | .int n => if low ≤ n ∧ n ≤ high then .ok n else .error (.wrongValue (.int n) name)
  | w => .error (.wrongType w name)

/-- Null or a value. -/
def optional {α : Type} (decode : Decoder α) : Decoder (Option α) := fun v =>
  match v with
  | .null => .ok none
  | v => (decode v).map some

/-- A sequence; null is the empty one. -/
def list {α : Type} (decode : Decoder α) : Decoder (List α) := fun v =>
  match v.untagged with
  | .seq items => items.mapM decode
  | .null => .ok []
  | w => .error (.wrongType w "a sequence")

/-- The name of a field. -/
def fieldName : Decoder String := fun v =>
  match v.untagged with
  | .str s => .ok s
  | w => .error (.wrongType w "field identifier")

/-- Reads the known fields of the entries in order with `set`, starting from `record`; `seen` are
the fields read before. -/
def fieldsFrom {σ : Type} (known : List String) (set : σ → String → Yaml → Except DecodeError σ) :
    List String → σ → List (Yaml × Yaml) → Except DecodeError σ
  | _, record, [] => .ok record
  | seen, record, (k, v) :: rest => do
    let name ← fieldName k
    if name ∈ known then
      if name ∈ seen then throw (.duplicateField name)
      fieldsFrom known set (name :: seen) (← set record name v) rest
    else fieldsFrom known set seen record rest

/-- A record of the type `type`: a mapping, or null for the record `default`. -/
def record {σ : Type} (type : String) (known : List String) (default : σ)
    (set : σ → String → Yaml → Except DecodeError σ) : Decoder σ := fun v =>
  match v.untagged with
  | .map entries => fieldsFrom known set [] default entries
  | .null => .ok default
  | w => .error (.wrongType w ("struct " ++ type))

/-! ### Alternatives -/

mutual

/-- Whether a tag occurs in a value. -/
def hasTag : Yaml → Bool
  | .tagged .. => true
  | .seq items => anyTag items
  | .map entries => anyEntryTag entries
  | _ => false

/-- Whether a tag occurs in one of the values. -/
def anyTag : List Yaml → Bool
  | [] => false
  | v :: r => hasTag v || anyTag r

/-- Whether a tag occurs in one of the entries. -/
def anyEntryTag : List (Yaml × Yaml) → Bool
  | [] => false
  | (k, v) :: r => hasTag k || hasTag v || anyEntryTag r

end

/-- A value of one of several shapes, each of which accepts it or not. -/
def alternative {α : Type} (type : String) (shapes : List (Yaml → Option α)) : Decoder α := fun v =>
  if hasTag v then .error .taggedAlternative
  else
    match shapes.findSome? fun shape => shape v with
    | some a => .ok a
    | none => .error (.noAlternative type)

/-- The shape of a text. -/
def textShape? : Yaml → Option String
  | .str s => some s
  | _ => none

/-- The shape of null or a text. -/
def optionalTextShape? : Yaml → Option (Option String)
  | .null => some none
  | .str s => some (some s)
  | _ => none

/-- The shape of any value in which no mapping repeats a key. -/
def valueShape? (v : Yaml) : Option Yaml := if v.keysDiffer then some v else none

/-- The shape of null or any other value. -/
def optionalShape? : Yaml → Option (Option Yaml)
  | .null => some none
  | v => (valueShape? v).map some

/-- The shape of a mapping with text keys. A repeated key keeps its place and takes its last value.
-/
def textMapShape? : Yaml → Option (OrderedMap String Yaml)
  | .map entries =>
    (entries.mapM fun (k, v) => do return (← textShape? k, ← valueShape? v)).map OrderedMap.ofList
  | _ => none

/-- The field that a key stands for: its name, or its position among the fields. -/
def shapeField? (known : List String) : Yaml → Option (Option String)
  | .str s => some (if s ∈ known then some s else none)
  | .int (.ofNat n) => some known[n]?
  | _ => none

/-- The values of the known fields of a mapping, by position or name; a field may occur once. -/
def fieldsShape? (known : List String) : Yaml → Option (List (String × Yaml))
  | .map entries => do
    let fields ← entries.mapM fun (k, v) => (shapeField? known k).map fun f => (f, v)
    let fields := fields.filterMap fun (f, v) => f.map fun name => (name, v)
    if (fields.map (·.1)).Nodup then some fields else none
  | _ => none

/-- The values of the fields of a mapping, or of a sequence that gives them in order. -/
def recordShape? (known : List String) : Yaml → Option (List (String × Yaml))
  | .seq items => if items.length ≤ known.length then some (known.zip items) else none
  | v => fieldsShape? known v

/-- A field of a record shape, null when absent. -/
def shapeValue (fields : List (String × Yaml)) (name : String) : Yaml :=
  (fields.lookup name).getD .null

end Decode

end KubeCompose.Yaml
