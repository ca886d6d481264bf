import KubeCompose.Script.Arithmetic
import KubeCompose.Text.Blank

/-!
# Formatted output of a script

A backslash and a letter, or up to three octal digits, stand for a byte. A format holds such escapes
and conversions of arguments, each with a width, and is used again as long as arguments are left.
-/

namespace KubeCompose.Script

/-- Whether a character is an octal digit. -/
def isOctal (c : Char) : Bool := '0' ≤ c && c ≤ '7'

/-- The byte behind a backslash, and what follows it. Where no escape stands the byte is the
backslash itself. -/
def readEscape (cs : List Char) : UInt8 × List Char :=
  match cs with
  | 'a' :: r => (7, r)
  | 'b' :: r => (8, r)
  | 't' :: r => (9, r)
  | 'n' :: r => (10, r)
  | 'v' :: r => (11, r)
  | 'f' :: r => (12, r)
  | 'r' :: r => (13, r)
  | '\\' :: r => (92, r)
  | cs =>
    let digits := (cs.take 3).takeWhile isOctal
    if digits.isEmpty then (92, cs)
    else ((((Number.readDigits? 8 digits).getD 0) : Nat).toUInt8, cs.drop digits.length)

/-- The bytes of a text with escapes; `\c` ends it. Whether it did is said beside them. -/
def escapedBytes : Nat → List Char → ByteArray → ByteArray × Bool
  | 0, _, done => (done, false)
  | n + 1, cs, done =>
    match cs with
    | [] => (done, false)
    | '\\' :: 'c' :: _ => (done, true)
    | '\\' :: '0' :: c :: r =>
      let (byte, rest) := readEscape (if isOctal c then c :: r else '0' :: c :: r)
      escapedBytes n rest (done.push byte)
    | '\\' :: r =>
      let (byte, rest) := readEscape r
      escapedBytes n rest (done.push byte)
    | c :: r => escapedBytes n r (done ++ (String.singleton c).toUTF8)

/-- How an argument is shown: at the left of its width or at the right, filled with zeros or blanks,
and how many characters of it at most. -/
structure Conversion where
  left : Bool
  zeros : Bool
  width : Nat
  limit : Option Nat
  kind : Char

/-- The conversion behind a percent sign. -/
def readConversion? (cs : List Char) : Option (Conversion × List Char) :=
  let marks := cs.takeWhile fun c => c == '-' || c == '0'
  let rest := cs.drop marks.length
  let width := rest.takeWhile Char.isDigit
  let rest := rest.drop width.length
  let (limit, rest) :=
    match rest with
    | '.' :: r =>
      let digits := r.takeWhile Char.isDigit
      (some ((Number.readDigits? 10 digits).getD 0), r.drop digits.length)
    | r => (none, r)
  match rest with
  | kind :: r =>
    let width := (Number.readDigits? 10 width).getD 0
    some (⟨marks.contains '-', marks.contains '0', width, limit, kind⟩, r)
  | [] => none

/-- Fills bytes up to the width of a conversion. -/
def Conversion.pad (c : Conversion) (bytes : ByteArray) : ByteArray :=
  let missing := c.width - bytes.size
  let fill (b : UInt8) : ByteArray := ⟨(List.replicate missing b).toArray⟩
  if c.left then bytes ++ fill 32
  else if c.zeros && c.kind != 's' then fill 48 ++ bytes
  else fill 32 ++ bytes

/-- An argument as a conversion shows it. -/
def Conversion.show (c : Conversion) (argument : String) : ByteArray :=
  let number := wholeNumber (Text.trimStart argument.toList)
  let chars :=
    match c.kind with
    | 'd' | 'i' | 'u' => (Number.decimalInt number).toList
    | 'x' => Nat.toDigits 16 number.toNat
    | 'X' => Number.hexadecimal 0 number.toNat
    | 'o' => Nat.toDigits 8 number.toNat
    | 'c' => argument.toList.take 1
    | _ => argument.toList
  let bytes :=
    if c.kind = 'b' then (escapedBytes (argument.length + 1) argument.toList .empty).1
    else (String.ofList chars).toUTF8
  c.pad <|
    match c.limit with
    | some limit => if c.kind = 's' then bytes.extract 0 limit else bytes
    | none => bytes

/-- The bytes of a format with arguments, and the arguments that are left; of at most `n` steps. -/
def formatOnce : Nat → List Char → List String → ByteArray → ByteArray × List String
  | 0, _, arguments, done => (done, arguments)
  | n + 1, cs, arguments, done =>
    match cs with
    | [] => (done, arguments)
    | '\\' :: r =>
      let (byte, rest) := readEscape r
      formatOnce n rest arguments (done.push byte)
    | '%' :: '%' :: r => formatOnce n r arguments (done.push 37)
    | '%' :: r =>
      match readConversion? r with
      | some (c, rest) =>
        formatOnce n rest (arguments.drop 1) (done ++ c.show ((arguments.head?).getD ""))
      | none => (done, arguments)
    | c :: r => formatOnce n r arguments (done ++ (String.singleton c).toUTF8)

/-- The bytes of a format, which is used again while arguments are left. -/
def formatAll : Nat → List Char → List String → ByteArray
  | 0, _, _ => .empty
  | n + 1, cs, arguments =>
    let (bytes, left) := formatOnce (cs.length + 1) cs arguments .empty
    if left.isEmpty || left.length = arguments.length then bytes else bytes ++ formatAll n cs left

end KubeCompose.Script
