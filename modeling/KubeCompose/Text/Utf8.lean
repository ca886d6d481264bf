/-!
# Text in bytes

Reading bytes as UTF-8 without refusing any: where a sequence breaks off, the bytes that could have
begun a character stand for one replacement character.
-/

namespace KubeCompose.Text

/-- The character that stands for bytes that are no text. -/
def replacement : Char := '\ufffd'

/-- The ranges in which the bytes after a first byte must lie, when it begins a character. -/
def followers? (first : Nat) : Option (List (Nat × Nat)) :=
  let any := (0x80, 0xBF)
  if first < 0x80 then some []
  else if first < 0xC2 then none
  else if first < 0xE0 then some [any]
  else if first = 0xE0 then some [(0xA0, 0xBF), any]
  else if first = 0xED then some [(0x80, 0x9F), any]
  else if first < 0xF0 then some [any, any]
  else if first = 0xF0 then some [(0x90, 0xBF), any, any]
  else if first < 0xF4 then some [any, any, any]
  else if first = 0xF4 then some [(0x80, 0x8F), any, any]
  else none

/-- How many of the bytes lie in the ranges, from the front on. -/
def matching : List (Nat × Nat) → List UInt8 → Nat
  | (low, high) :: ranges, b :: rest =>
    if low ≤ b.toNat ∧ b.toNat ≤ high then matching ranges rest + 1 else 0
  | _, _ => 0

/-- The character of a first byte and the bytes after it: the first one gives the bits that its
length leaves free, each later one six bits. -/
def assemble (first : Nat) (later : List UInt8) : Char :=
  let free :=
    match later.length with
    | 0 => first
    | 1 => first % 0x20
    | 2 => first % 0x10
    | _ => first % 8
  Char.ofNat (later.foldl (fun n b => n * 0x40 + b.toNat % 0x40) free)

/-- The characters of a list of bytes. -/
def decodeBytes : List UInt8 → List Char
  | [] => []
  | b :: rest =>
    match followers? b.toNat with
    | none => replacement :: decodeBytes rest
    | some ranges =>
      let n := matching ranges rest
      (if n = ranges.length then assemble b.toNat (rest.take n) else replacement) ::
        decodeBytes (rest.drop n)
termination_by bytes => bytes.length
decreasing_by
  all_goals simp only [List.length_drop, List.length_cons]; omega

/-- The text of bytes, whatever they are. -/
def ofBytes (bytes : ByteArray) : String :=
  match String.fromUTF8? bytes with
  | some s => s
  | none => String.ofList (decodeBytes bytes.toList)

end KubeCompose.Text
