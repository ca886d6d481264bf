import KubeCompose.Yaml.Value

/-!
# The value of an unquoted scalar

An unquoted scalar is null, a truth value, an integer, a floating point number or a text. A run of
digits with a leading zero is a text. An integer outside 64 bits has no value as long as it fits
128 bits; a longer one is a floating point number when it is written in decimal.
-/

namespace KubeCompose.Yaml

open Number (Binary64 readDigits? isDigit twoTo)

/-- Whether `cs`, after an optional sign, is a zero followed by more digits. -/
def hasLeadingZero (cs : List Char) : Bool :=
  let digits :=
    match cs with
    | '-' :: r => r
    | '+' :: r => r
    | r => r
  match digits with
  | '0' :: c :: r => (c :: r).all isDigit
  | _ => false

/-- Reads digits after one of the marks `0x`, `0o` and `0b`. -/
def readMarked? : List Char → Option Nat
  | '0' :: 'x' :: r => readDigits? 16 r
  | '0' :: 'o' :: r => readDigits? 8 r
  | '0' :: 'b' :: r => readDigits? 2 r
  | _ => none

/-- Reads a non-negative integer with an optional plus sign. -/
def readNatural? (cs : List Char) : Option Nat :=
  let unsigned :=
    match cs with
    | '+' :: r => r
    | r => r
  match readMarked? unsigned with
  | some n => some n
  | none => if hasLeadingZero cs then none else readDigits? 10 unsigned

/-- Reads the magnitude of an integer with a minus sign. -/
def readNegative? : List Char → Option Nat
  | '-' :: r =>
    match readMarked? r with
    | some n => some n
    | none => if hasLeadingZero ('-' :: r) then none else readDigits? 10 r
  | _ => none

/-- What an unquoted scalar can be read as in place of a text. -/
inductive Integer where
  | value (n : Int)
  | beyondRange
  | notInteger
  deriving DecidableEq, Repr

/-- Reads an integer: a value within 64 bits, none within 128. -/
def readInteger (cs : List Char) : Integer :=
  match readNatural? cs with
  | some n =>
    if n < twoTo 64 then .value n else if n < twoTo 128 then .beyondRange else .notInteger
  | none =>
    match readNegative? cs with
    | some n =>
      if n ≤ twoTo 63 then .value (-(n : Int))
      else if n ≤ twoTo 127 then .beyondRange
      else .notInteger
    | none => .notInteger

/-- Reads a finite decimal, one of the spellings of infinity, or not-a-number. -/
def readFloat? (cs : List Char) : Option Binary64 :=
  let text := String.ofList cs
  if text ∈ [".inf", ".Inf", ".INF", "+.inf", "+.Inf", "+.INF"] then some (.infinite false)
  else if text ∈ ["-.inf", "-.Inf", "-.INF"] then some (.infinite true)
  else if text ∈ [".nan", ".NaN", ".NAN"] then some .nan
  else
    match cs with
    | '+' :: '+' :: _ | '+' :: '-' :: _ => none
    | _ => (Binary64.read? cs).filter (·.isFinite)

/-- Whether a scalar is one of the spellings of null. -/
def spellsNull (s : String) : Bool := s ∈ ["null", "Null", "NULL", "~"]

/-- Reads one of the spellings of a truth value. -/
def readBool? (s : String) : Option Bool :=
  if s ∈ ["true", "True", "TRUE"] then some true
  else if s ∈ ["false", "False", "FALSE"] then some false
  else none

/-- The value of an unquoted scalar; none for an integer without one. -/
def ofPlain? (s : String) : Option Yaml :=
  if s = "" ∨ spellsNull s then some .null
  else
    match readBool? s with
    | some b => some (.bool b)
    | none =>
      let cs := s.toList
      match readInteger cs with
      | .value n => some (.int n)
      | .beyondRange => none
      | .notInteger =>
        if hasLeadingZero cs then some (.str s)
        else
          match readFloat? cs with
          | some x => some (.float x)
          | none => some (.str s)

end KubeCompose.Yaml
