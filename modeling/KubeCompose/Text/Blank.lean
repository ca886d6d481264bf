/-!
# White space and trimming

White space is the Unicode property `White_Space`, so a no-break space or an ideographic space is
trimmed like a blank.
-/

namespace KubeCompose.Text

/-- The characters with the Unicode property `White_Space`. -/
def isBlank (c : Char) : Bool :=
  let n := c.toNat
  (9 ≤ n && n ≤ 13) || n == 0x20 || n == 0x85 || n == 0xA0 || n == 0x1680 ||
    (0x2000 ≤ n && n ≤ 0x200A) || n == 0x2028 || n == 0x2029 || n == 0x202F || n == 0x205F ||
    n == 0x3000

/-- Drops the longest tail whose characters all satisfy `p`. -/
def dropTrailing {α : Type} (p : α → Bool) : List α → List α
  | [] => []
  | c :: r =>
    match dropTrailing p r with
    | [] => if p c then [] else [c]
    | d :: s => c :: d :: s

/-- Drops white space at the front. -/
def trimStart (cs : List Char) : List Char := cs.dropWhile isBlank

/-- Drops white space at the end. -/
def trimEnd (cs : List Char) : List Char := dropTrailing isBlank cs

/-- Drops white space at both ends. -/
def trim (cs : List Char) : List Char := trimEnd (trimStart cs)

/-- A text without the white space at its two ends. -/
def trimmed (s : String) : String := String.ofList (trim s.toList)

/-- A text without the white space at its end. -/
def trimmedEnd (s : String) : String := String.ofList (trimEnd s.toList)

end KubeCompose.Text
