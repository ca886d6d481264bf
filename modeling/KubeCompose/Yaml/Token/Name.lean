import KubeCompose.Number.Digits
import KubeCompose.Yaml.Cursor
import KubeCompose.Yaml.ReadError
import KubeCompose.Yaml.Token

/-!
# Anchors, tags and directives in a document text
-/

namespace KubeCompose.Yaml

open Number (readDigits? isDigit)

/-- Reads the name of an anchor or an alias behind its mark. -/
def scanAnchor (c : Cursor) : Except ReadError (String × Cursor) :=
  let name := c.rest.takeWhile isWordChar
  let c := c.advance name.length
  let ended := endsWord c.rest || c.rest.head?.any ("?:,]\x7d%@`".toList.contains ·)
  if name.isEmpty || !ended then .error .badAnchor else .ok (String.ofList name, c)

/-- The characters of a tag; in angle brackets also a comma and square brackets. -/
def isTagChar (verbatim : Bool) (c : Char) : Bool :=
  isWordChar c || ";/?:@&=+$.%!~*'()".toList.contains c || (verbatim && ",[]".toList.contains c)

/-- Reads a byte written as `%` and two hexadecimal digits. -/
def escapedByte? : List Char → Option (Nat × List Char)
  | '%' :: a :: b :: r => (readDigits? 16 [a, b]).map fun n => (n, r)
  | _ => none

/-- How many bytes follow the first byte of a character, by the marks at its top. -/
def followers? (first : Nat) : Option Nat :=
  if first < 0x80 then some 0
  else if first < 0xC0 then none
  else if first < 0xE0 then some 1
  else if first < 0xF0 then some 2
  else if first < 0xF8 then some 3
  else none

/-- Reads the `n` further escaped bytes of a character. -/
def followersOf : Nat → List Char → Except ReadError (TagBytes × List Char)
  | 0, cs => .ok ([], cs)
  | n + 1, cs =>
    match escapedByte? cs with
    | some (b, r) =>
      if 0x80 ≤ b && b < 0xC0 then
        (followersOf n r).map fun (more, r) => (UInt8.ofNat b :: more, r)
      else .error .badTag
    | none => .error .badTag

/-- The bytes that the characters of a tag stand for. The escaped bytes of a character stand
together; whether they are its shortest form is not asked. `fuel` is at least the number of
characters. -/
def unescapeBytes : Nat → List Char → Except ReadError TagBytes
  | 0, _ | _, [] => .ok []
  | fuel + 1, c :: r =>
    if c = '%' then
      match escapedByte? (c :: r) with
      | some (first, r) =>
        match followers? first with
        | some n => do
          let (more, r) ← followersOf n r
          return UInt8.ofNat first :: more ++ (← unescapeBytes fuel r)
        | none => .error .badTag
      | none => .error .badTag
    else (unescapeBytes fuel r).map ((String.singleton c).toUTF8.toList ++ ·)

/-- The bytes of a tag with these characters, which end before the first that is zero. -/
def unescapeTag (cs : List Char) : Except ReadError TagBytes :=
  (unescapeBytes cs.length cs).map fun bytes => bytes.takeWhile (· != 0)

/-- Reads a tag behind its exclamation mark: a handle and a suffix. The handle of a tag in angle
brackets is empty, and so is that of the tag `!` alone. -/
def scanTag (inFlow : Bool) (c : Cursor) : Except ReadError (Token × Cursor) := do
  let (token, c) ←
    if c.peek? = some '<' then do
      let c := c.advance 1
      let uri := c.rest.takeWhile (isTagChar true)
      let c := c.advance uri.length
      if uri.isEmpty || c.peek? != some '>' then throw .badTag
      pure (Token.tag "" (← unescapeTag uri), c.advance 1)
    else do
      let word := c.rest.takeWhile isWordChar
      let c := c.advance word.length
      if c.peek? = some '!' then
        let c := c.advance 1
        let suffix := c.rest.takeWhile (isTagChar false)
        if suffix.isEmpty then throw .badTag
        let handle := String.ofList ('!' :: word ++ ['!'])
        pure (Token.tag handle (← unescapeTag suffix), c.advance suffix.length)
      else
        let more := c.rest.takeWhile (isTagChar false)
        let suffix ← unescapeTag more
        let suffix := (String.ofList word).toUTF8.toList ++ suffix
        let token := if suffix.isEmpty then Token.tag "" "!".toUTF8.toList else Token.tag "!" suffix
        pure (token, c.advance more.length)
  if endsWord c.rest || (inFlow && c.peek? == some ',') then pure (token, c) else throw .badTag

/-- Reads a number of at most nine digits. -/
def scanVersionNumber (c : Cursor) : Except ReadError (Nat × Cursor) :=
  let digits := c.rest.takeWhile isDigit
  match readDigits? 10 digits with
  | some n => if digits.length ≤ 9 then .ok (n, c.advance digits.length) else .error .badDirective
  | none => .error .badDirective

/-- Reads a directive behind its percent sign, up to the end of its line. -/
def scanDirective (c : Cursor) : Except ReadError (Token × Cursor) := do
  let name := c.rest.takeWhile isWordChar
  let c := c.advance name.length
  if name.isEmpty || !endsWord c.rest then throw .badDirective
  let c := c.advanceWhile isSpaceOrTab
  let (token, c) ←
    if String.ofList name = "YAML" then do
      let (major, c) ← scanVersionNumber c
      if c.peek? != some '.' then throw .badDirective
      let (minor, c) ← scanVersionNumber (c.advance 1)
      pure (Token.version major minor, c)
    else if String.ofList name = "TAG" then do
      if c.peek? != some '!' then throw .badDirective
      let c := c.advance 1
      let word := c.rest.takeWhile isWordChar
      let c := c.advance word.length
      let closed := c.peek? = some '!'
      if !closed && !word.isEmpty then throw .badDirective
      let c := if closed then c.advance 1 else c
      let handle := String.ofList ('!' :: word ++ if closed then ['!'] else [])
      if !(c.rest.head?.any isSpaceOrTab) then throw .badDirective
      let c := c.advanceWhile isSpaceOrTab
      let uri := c.rest.takeWhile (isTagChar true)
      if uri.isEmpty then throw .badTag
      let c := c.advance uri.length
      if !endsWord c.rest then throw .badDirective
      pure (Token.tagHandle handle (← unescapeTag uri), c)
    else throw .badDirective
  let c := (c.advanceWhile isSpaceOrTab).skipComment
  if endsLine c.rest then pure (token, c.nextLine) else throw .badDirective

end KubeCompose.Yaml
