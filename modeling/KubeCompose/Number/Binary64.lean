import KubeCompose.Number.Digits

/-!
# Binary floating point numbers of 64 bits

A finite number is a signed significand times a power of two, kept exactly, so that reading a
decimal and writing the shortest decimal that reads back are both calculations on natural numbers.

`Binary64.ofDecimal` rounds to the nearest number, a tie to the even significand.
`Binary64.shortest` finds the fewest digits that round to the number, of two such decimals the
nearer one.
-/

namespace KubeCompose.Number

/-- A number of the format binary64, with one not-a-number value. -/
inductive Binary64 where
  | nan
  | infinite (negative : Bool)
  | finite (negative : Bool) (significand : Nat) (exponent : Int)
  deriving DecidableEq, Repr, Inhabited

namespace Binary64

/-- The exponent of the smallest subnormal number. -/
def minExponent : Int := -1074

/-- The exponent of the largest finite number. -/
def maxExponent : Int := 971

/-- Zero with a sign. -/
def zero (negative : Bool) : Binary64 := .finite negative 0 minExponent

/-- The quotient `num / (den * 2 ^ q)` and whether the remainder is nothing, below, at or above a
half, as the rounded quotient: the nearest natural number, a tie to the even one. -/
def roundedQuotient (num den : Nat) (q : Int) : Nat :=
  let n := if q < 0 then num * twoTo q.natAbs else num
  let d := if q < 0 then den else den * twoTo q.natAbs
  let m := n / d
  let r := n % d
  if 2 * r < d then m else if d < 2 * r then m + 1 else if m % 2 = 0 then m else m + 1

/-- The number nearest to `num / den`; beyond the largest finite number it is infinite. -/
def ofRatio (negative : Bool) (num den : Nat) : Binary64 :=
  if num = 0 then zero negative
  else
    let guess : Int := (Nat.log2 num : Int) - (Nat.log2 den : Int) - 52
    let atGuess :=
      if guess < 0 then num * twoTo guess.natAbs / den else num / (den * twoTo guess.natAbs)
    let q := max minExponent (if atGuess < twoTo 52 then guess - 1 else guess)
    let m := roundedQuotient num den q
    let (m, q) := if m = twoTo 53 then (twoTo 52, q + 1) else (m, q)
    if m = 0 then zero negative
    else if maxExponent < q then .infinite negative
    else .finite negative m q

/-- The number nearest to `digits * 10 ^ exponent`. Decimals beyond the range of the format are
settled by their length, before any power is taken. -/
def ofDecimal (negative : Bool) (digits : Nat) (exponent : Int) : Binary64 :=
  if digits = 0 then zero negative
  else
    let magnitude := (decimalLength digits : Int) + exponent
    if 310 < magnitude then .infinite negative
    else if magnitude < -330 then zero negative
    else if exponent < 0 then ofRatio negative digits (tenTo exponent.natAbs)
    else ofRatio negative (digits * tenTo exponent.natAbs) 1

/-- Reads the digits after an exponent mark, with an optional sign. -/
def readExponent? (cs : List Char) : Option Int :=
  match cs with
  | '-' :: r => (readDigits? 10 r).map fun n => -(n : Int)
  | '+' :: r => (readDigits? 10 r).map fun n => (n : Int)
  | r => (readDigits? 10 r).map fun n => (n : Int)

/-- Reads an unsigned decimal: digits with an optional point, at least one digit in all, then an
optional exponent. -/
def readUnsigned? (negative : Bool) (cs : List Char) : Option Binary64 :=
  let whole := cs.takeWhile isDigit
  let rest := cs.dropWhile isDigit
  let (fraction, rest) :=
    match rest with
    | '.' :: r => (r.takeWhile isDigit, r.dropWhile isDigit)
    | r => ([], r)
  match readDigits? 10 (whole ++ fraction) with
  | none => none
  | some digits =>
    match rest with
    | [] => some (ofDecimal negative digits (-(fraction.length : Int)))
    | c :: r =>
      if c = 'e' ∨ c = 'E' then
        (readExponent? r).map fun e => ofDecimal negative digits (e - fraction.length)
      else none

/-- Reads a decimal with an optional sign. -/
def read? : List Char → Option Binary64
  | '-' :: r => readUnsigned? true r
  | '+' :: r => readUnsigned? false r
  | r => readUnsigned? false r

/-- Whether the number is finite. -/
def isFinite : Binary64 → Bool
  | .finite .. => true
  | _ => false

/-- Numeric equality, except that not-a-number equals itself: the two zeros are one value. -/
def same : Binary64 → Binary64 → Bool
  | .finite _ 0 _, .finite _ 0 _ => true
  | x, y => x == y

/-! ### The shortest decimal -/

/-- The integer `e` with `10 ^ e ≤ num / den < 10 ^ (e + 1)`. -/
def decimalExponent (num den : Nat) : Int :=
  let e : Int := (decimalLength num : Int) - (decimalLength den : Int)
  let reached := if e < 0 then den ≤ num * tenTo e.natAbs else den * tenTo e.natAbs ≤ num
  if reached then e else e - 1

/-- A decimal `digits * 10 ^ exponent`. -/
structure Decimal where
  digits : Nat
  exponent : Int
  deriving DecidableEq, Repr

/-- The three numbers `4 * significand - below`, `4 * significand` and `4 * significand + 2`, over a
common denominator: the ends of the interval that rounds to the number and the number itself. The
interval is half as wide below a power of two. -/
structure Interval where
  low : Nat
  mid : Nat
  high : Nat
  den : Nat
  closed : Bool

/-- The interval of reals that round to `significand * 2 ^ exponent`; its ends belong to it when the
significand is even. -/
def interval (significand : Nat) (exponent : Int) : Interval :=
  let below := if significand = twoTo 52 ∧ minExponent < exponent then 1 else 2
  let q := exponent - 2
  let scale := if q < 0 then 1 else twoTo q.natAbs
  { low := (4 * significand - below) * scale
    mid := 4 * significand * scale
    high := (4 * significand + 2) * scale
    den := if q < 0 then twoTo q.natAbs else 1
    closed := significand % 2 = 0 }

namespace Interval

/-- A decimal over the interval's denominator, and the factor that makes both sides natural. -/
def scaled (i : Interval) (d : Decimal) : Nat × Nat :=
  if d.exponent < 0 then (d.digits * i.den, tenTo d.exponent.natAbs)
  else (d.digits * tenTo d.exponent.natAbs * i.den, 1)

/-- Whether a decimal rounds to the number. -/
def contains (i : Interval) (d : Decimal) : Bool :=
  let (x, k) := i.scaled d
  if i.closed then i.low * k ≤ x && x ≤ i.high * k else i.low * k < x && x < i.high * k

/-- How far a decimal is from the number, over a denominator common to decimals of one exponent. -/
def distance (i : Interval) (d : Decimal) : Nat :=
  let (x, k) := i.scaled d
  if x < i.mid * k then i.mid * k - x else x - i.mid * k

/-- The best decimal with `n` digits, when one rounds to the number: of the two neighbours of the
number on that grid the nearer, a tie to the even digits. -/
def withDigits? (i : Interval) (n : Nat) : Option Decimal :=
  let p := decimalExponent i.mid i.den + 1 - n
  let digits := if p < 0 then i.mid * tenTo p.natAbs / i.den else i.mid / (i.den * tenTo p.natAbs)
  let down : Decimal := ⟨digits, p⟩
  let up : Decimal := ⟨digits + 1, p⟩
  match i.contains down, i.contains up with
  | false, false => none
  | true, false => some down
  | false, true => some up
  | true, true =>
    if i.distance down < i.distance up then some down
    else if i.distance up < i.distance down then some up
    else if digits % 2 = 0 then some down else some up

end Interval

/-- The same decimal without zeros at the end of its digits; `fuel` bounds how many are dropped. -/
def Decimal.withoutZeros : Nat → Decimal → Decimal
  | fuel + 1, d =>
    if d.digits ≠ 0 ∧ d.digits % 10 = 0 then withoutZeros fuel ⟨d.digits / 10, d.exponent + 1⟩
    else d
  | 0, d => d

/-- The fewest digits that read back as the number; seventeen always suffice. A neighbour above may
have gained a digit, which is then a zero. -/
def shortest (significand : Nat) (exponent : Int) : Decimal :=
  let i := interval significand exponent
  let found := (List.range 17).findSome? fun n => i.withDigits? (n + 1)
  (found.getD ⟨significand, exponent⟩).withoutZeros 18

/-! ### The text of a number -/

/-- The digits of a decimal with a point, positional from five places after the point to sixteen
before it, with an exponent otherwise. -/
def Decimal.layout (d : Decimal) : String :=
  let digits := Nat.toDigits 10 d.digits
  let point : Int := d.exponent + digits.length
  if 0 ≤ d.exponent ∧ point ≤ 16 then
    String.ofList (digits ++ List.replicate d.exponent.natAbs '0') ++ ".0"
  else if 0 < point ∧ point ≤ 16 then
    String.ofList (digits.take point.natAbs) ++ "." ++ String.ofList (digits.drop point.natAbs)
  else if -5 < point ∧ point ≤ 0 then
    "0." ++ String.ofList (List.replicate point.natAbs '0' ++ digits)
  else
    let mark := "e" ++ decimalInt (point - 1)
    match digits with
    | [c] => String.ofList [c] ++ mark
    | c :: r => String.ofList [c] ++ "." ++ String.ofList r ++ mark
    | [] => mark

/-- The digits of a decimal with a point and without an exponent, however many zeros that takes. -/
def Decimal.positional (d : Decimal) : String :=
  let digits := Nat.toDigits 10 d.digits
  let point : Int := d.exponent + digits.length
  if 0 ≤ d.exponent then
    String.ofList (digits ++ List.replicate d.exponent.natAbs '0') ++ ".0"
  else if 0 < point then
    String.ofList (digits.take point.natAbs) ++ "." ++ String.ofList (digits.drop point.natAbs)
  else "0." ++ String.ofList (List.replicate point.natAbs '0' ++ digits)

/-- The text of a number in a message: the shortest decimal, without an exponent. -/
def plainText : Binary64 → String
  | .nan => "NaN"
  | .infinite true => "-inf"
  | .infinite false => "inf"
  | .finite negative significand exponent =>
    (if negative then "-" else "") ++
      (if significand = 0 then "0.0" else (shortest significand exponent).positional)

/-- The text of a number: the shortest decimal that reads back, or the words for the values that
have no decimal. -/
def text : Binary64 → String
  | .nan => ".nan"
  | .infinite true => "-.inf"
  | .infinite false => ".inf"
  | .finite negative significand exponent =>
    (if negative then "-" else "") ++
      (if significand = 0 then "0.0" else (shortest significand exponent).layout)

end Binary64

end KubeCompose.Number
