import KubeCompose.Text.CaseTable

/-!
# Lower case

The full lower-case mapping of Unicode. Every character has a form of its own, but for two: a
capital I with a dot becomes two characters, and a capital sigma becomes a final one at the end of a
word.
-/

namespace KubeCompose.Text

/-- Whether a character lies in one of the ranges. -/
def inRanges (ranges : List (Nat × Nat)) (c : Char) : Bool :=
  ranges.any fun (a, b) => a ≤ c.toNat && c.toNat ≤ b

/-- The ASCII lower-case form of a character. -/
def asciiLower (c : Char) : Char :=
  if 'A' ≤ c ∧ c ≤ 'Z' then Char.ofNat (c.toNat + 32) else c

/-- The lower-case form of a character away from its context. -/
def simpleLower (c : Char) : Char :=
  if c.toNat < 0x80 then asciiLower c
  else
    let n := c.toNat
    match lowercaseRuns.find? fun (a, b, step, _) => a ≤ n && n ≤ b && (n - a) % step == 0 with
    | some (_, _, _, delta) => Char.ofNat ((n : Int) + delta).toNat
    | none => c

/-- Whether the nearest character that is not ignored has case. -/
def meetsCased (cs : List Char) : Bool :=
  match cs.dropWhile (inRanges caseIgnorableRanges) with
  | [] => false
  | c :: _ => inRanges casedRanges c

/-- The lower-case form of the text `cs` behind the characters `before`, the nearest first. -/
def lowerAfter (before : List Char) : List Char → List Char
  | [] => []
  | c :: r =>
    let forms :=
      if c = 'Σ' then
        if meetsCased before && !meetsCased r then ['ς'] else ['σ']
      else if c = 'İ' then ['i', '\u0307']
      else [simpleLower c]
    forms ++ lowerAfter (c :: before) r

/-- A text in lower case. -/
def lowercase (s : String) : String := String.ofList (lowerAfter [] s.toList)

/-- A text whose ASCII capitals are in lower case. -/
def asciiLowercase (s : String) : String := s.map asciiLower

end KubeCompose.Text
