import KubeCompose.Number.Digits
import KubeCompose.Script.Token

/-!
# Calculations in a script

A calculation is made of numbers, variables, parentheses and the five operations on whole numbers,
of which multiplication, division and remainder bind more tightly. Division goes toward zero.
-/

namespace KubeCompose.Script

/-- A part of a calculation. -/
inductive Symbol where
  | number (n : Int)
  | mark (c : Char)
  deriving DecidableEq, Repr

/-- The whole number of a text; what is none counts as zero. -/
def wholeNumber (text : List Char) : Int :=
  match text with
  | '-' :: r => -(((Number.readDigits? 10 r).getD 0 : Nat) : Int)
  | r => (((Number.readDigits? 10 r).getD 0 : Nat) : Int)

/-- The parts of a calculation, with the numbers that variables stand for; of at most `n` steps. -/
def symbols (variableValue : String → Int) : Nat → List Char → List Symbol
  | 0, _ | _ + 1, [] => []
  | n + 1, c :: r =>
    if isNameChar c then
      let name := (c :: r).takeWhile isNameChar
      let value := if c.isDigit then wholeNumber name else variableValue (String.ofList name)
      .number value :: symbols variableValue n (r.drop (name.length - 1))
    else if c = ' ' ∨ c = '\n' ∨ c = '\t' ∨ c = '$' then symbols variableValue n r
    else .mark c :: symbols variableValue n r

/-- The operations, those that bind less tightly first. -/
def operationsAt : Nat → List Char
  | 0 => ['+', '-']
  | _ => ['*', '/', '%']

/-- The result of an operation. -/
def operate (c : Char) (a b : Int) : Int :=
  match c with
  | '+' => a + b
  | '-' => a - b
  | '*' => a * b
  | '/' => a.tdiv b
  | _ => a.tmod b

mutual

/-- Calculates what operations of a level join. -/
def calculate : Nat → Nat → List Symbol → Int × List Symbol
  | 0, _, ss => (0, ss)
  | n + 1, level, ss =>
    let (first, ss) := if level = 0 then calculate n 1 ss else calculateOne n ss
    calculateMore n level first ss

/-- Goes on with the operations of a level. -/
def calculateMore : Nat → Nat → Int → List Symbol → Int × List Symbol
  | 0, _, a, ss => (a, ss)
  | n + 1, level, a, ss =>
    match ss with
    | .mark c :: r =>
      if (operationsAt level).contains c then
        let (b, r) := if level = 0 then calculate n 1 r else calculateOne n r
        calculateMore n level (operate c a b) r
      else (a, ss)
    | _ => (a, ss)

/-- Calculates a number, a negation or what stands in parentheses. -/
def calculateOne : Nat → List Symbol → Int × List Symbol
  | 0, ss => (0, ss)
  | n + 1, ss =>
    match ss with
    | .number k :: r => (k, r)
    | .mark '-' :: r =>
      let (k, r) := calculateOne n r
      (-k, r)
    | .mark '(' :: r =>
      let (k, r) := calculate n 0 r
      (k, r.drop 1)
    | ss => (0, ss)

end

/-- The value of a calculation. -/
def calculation (variableValue : String → Int) (text : List Char) : Int :=
  let ss := symbols variableValue (text.length + 1) text
  (calculate (4 * (ss.length + 1)) 0 ss).1

end KubeCompose.Script
