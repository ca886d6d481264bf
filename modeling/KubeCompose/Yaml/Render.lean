import KubeCompose.Yaml.Cursor
import KubeCompose.Yaml.Scalar

/-!
# Writing documents

Collections are written in block style with two columns of indentation; a sequence that is the value
of a key is not indented further than the key. A text is written plain where it reads back as the
same text, in single quotes where it would read as something else, in double quotes where it holds
characters that need an escape, and as a literal block where it holds line feeds.

Every part is written with the line end behind it, so the parts of a collection are put together
without looking at each other.
-/

namespace KubeCompose.Yaml

open Number (decimalInt hexadecimal)

/-! ### The style of a text -/

/-- How a text is written. -/
inductive Style where
  | plain
  | single
  | double
  | literal
  deriving DecidableEq, Repr

/-- Whether a character may be written as itself. -/
def isPrintable (c : Char) : Bool :=
  let n := c.toNat
  n == 0x0A || (0x20 ≤ n && n ≤ 0x7E) || (0xA0 ≤ n && n ≤ 0xD7FF) ||
    (0xE000 ≤ n && n ≤ 0xFFFD && n != 0xFEFF) || 0x10000 ≤ n

/-- Whether two neighbours of a text satisfy `p`. -/
def hasNeighbours (p : Char → Char → Bool) : List Char → Bool
  | a :: b :: r => p a b || hasNeighbours p (b :: r)
  | _ => false

/-- Whether a colon before white space or a comment mark behind white space occurs in a text, whose
last character so far is `previous`. -/
def hasInnerIndicator (previous : Char) : List Char → Bool
  | [] => false
  | c :: r =>
    (c == ':' && endsWord r) || (c == '#' && isSpaceOrBreak previous) || hasInnerIndicator c r

/-- Whether a text holds an indicator where it would be read as one. -/
def hasIndicator (cs : List Char) : Bool :=
  match cs with
  | [] => false
  | c :: r =>
    "#,[]\x7b\x7d&*!|>'\"%@`".toList.contains c ||
      ((c == '?' || c == ':' || c == '-') && endsWord r) ||
      "---".toList.isPrefixOf cs || "...".toList.isPrefixOf cs || hasInnerIndicator c r

/-- Whether a text may stand in single quotes: it needs no escape and no space stands at a line
end. -/
def allowsSingle (cs : List Char) : Bool :=
  cs.all isPrintable && !hasNeighbours (fun a b => a == ' ' && isBreak b) cs &&
    !hasNeighbours (fun a b => isBreak a && b == ' ') cs

/-- Whether a text may stand without quotes. -/
def allowsPlain (cs : List Char) : Bool :=
  allowsSingle cs && !cs.any isBreak && cs.head? != some ' ' && cs.getLast? != some ' ' &&
    !hasIndicator cs

/-- Whether a text may be a literal block: it needs no escape, and no space ends it or stands before
a line end. -/
def allowsLiteral (cs : List Char) : Bool :=
  !cs.isEmpty && cs.all isPrintable && cs.getLast? != some ' ' &&
    !hasNeighbours (fun a b => a == ' ' && isBreak b) cs

/-- Whether an unquoted text would be read as something else, or is a number with leading zeros. -/
def isAmbiguous (s : String) : Bool :=
  match ofPlain? s with
  | some (.str _) => hasLeadingZero s.toList
  | _ => true

/-- The style of a text. -/
def styleOf (s : String) : Style :=
  let cs := s.toList
  if cs.contains '\n' then
    if allowsLiteral cs then .literal else .double
  else if !isAmbiguous s && allowsPlain cs then .plain
  else if allowsSingle cs then .single
  else .double

/-! ### Scalars -/

/-- `n` spaces. -/
def spaces (n : Nat) : List Char := List.replicate n ' '

/-- The escape of a character in double quotes. -/
def escape (c : Char) : List Char :=
  let n := c.toNat
  '\\' ::
    match c with
    | '\x00' => ['0']
    | '\x07' => ['a']
    | '\x08' => ['b']
    | '\t' => ['t']
    | '\n' => ['n']
    | '\x0b' => ['v']
    | '\x0c' => ['f']
    | '\r' => ['r']
    | '\x1b' => ['e']
    | '"' => ['"']
    | '\\' => ['\\']
    | '\u0085' => ['N']
    | '\u00a0' => ['_']
    | '\u2028' => ['L']
    | '\u2029' => ['P']
    | _ =>
      if n ≤ 0xFF then 'x' :: hexadecimal 2 n
      else if n ≤ 0xFFFF then 'u' :: hexadecimal 4 n
      else 'U' :: hexadecimal 8 n

/-- A text in double quotes. -/
def doubleQuoted (cs : List Char) : List Char :=
  let inner := cs.flatMap fun c =>
    if !isPrintable c || isBreak c || c == '"' || c == '\\' then escape c else [c]
  '"' :: inner ++ ['"']

/-- The inside of a text in single quotes: quotes are doubled, and the text behind a line end is
indented. -/
def singleInner (indent : Nat) (behindBreak : Bool) : List Char → List Char
  | [] => if behindBreak then spaces indent else []
  | c :: r =>
    if isBreak c then c :: singleInner indent true r
    else
      (if behindBreak && c != ' ' then spaces indent else []) ++
        (if c == '\'' then ['\'', '\''] else [c]) ++ singleInner indent false r

/-- A text in single quotes. -/
def singleQuoted (indent : Nat) (cs : List Char) : List Char :=
  '\'' :: singleInner indent false cs ++ ['\'']

/-- The lines of a literal block, each but the empty ones indented. -/
def literalLines (indent : Nat) (lineStart : Bool) : List Char → List Char
  | [] => []
  | c :: r =>
    if isBreak c then c :: literalLines indent true r
    else (if lineStart then spaces indent else []) ++ c :: literalLines indent false r

/-- The hints of a literal block: its indentation when it starts with a space or an empty line, `-`
when no line ends it, `+` when more than one line end does. -/
def literalHints (cs : List Char) : List Char :=
  let indentHint := if cs.head?.any fun c => c == ' ' || isBreak c then ['2'] else []
  let chompHint :=
    match cs.reverse with
    | a :: b :: _ => if !isBreak a then ['-'] else if isBreak b then ['+'] else []
    | [a] => if isBreak a then ['+'] else ['-']
    | [] => ['-']
  indentHint ++ chompHint

/-- Ends the line, unless the text has ended it. -/
def endLine (cs : List Char) : List Char :=
  if cs.getLast?.any isBreak then cs else cs ++ ['\n']

/-- A text in its style; the lines behind its first are indented by `indent`. -/
def textLines (indent : Nat) (s : String) : List Char :=
  let cs := s.toList
  match styleOf s with
  | .plain => cs
  | .single => singleQuoted indent cs
  | .double => doubleQuoted cs
  | .literal => '|' :: literalHints cs ++ '\n' :: literalLines indent true cs

/-- A scalar or an empty collection; none for another value. -/
def leafLines? (indent : Nat) : Yaml → Option (List Char)
  | .null => some "null".toList
  | .bool true => some "true".toList
  | .bool false => some "false".toList
  | .int n => some (decimalInt n).toList
  | .float x => some x.text.toList
  | .str s => some (textLines indent s)
  | .seq [] => some "[]".toList
  | .map [] => some "\x7b\x7d".toList
  | _ => none

/-! ### Tags -/

/-- Whether a character of a tag needs no escape. -/
def isPlainTagChar (c : Char) : Bool :=
  isWordChar c || ";/?:@&=+$,.~*'()[]".toList.contains c

/-- The characters of a tag, those that need it escaped byte by byte. -/
def tagChars (cs : List Char) : List Char :=
  cs.flatMap fun c =>
    if isPlainTagChar c then [c]
    else (String.singleton c).toUTF8.toList.flatMap fun b => '%' :: hexadecimal 2 b.toNat

/-- A local tag as written: behind an exclamation mark, or in angle brackets when it is nothing but
one. -/
def tagText (tag : String) : List Char :=
  match tag.toList with
  | ['!'] => "!<".toList ++ tagChars ['!'] ++ ['>']
  | '!' :: r => '!' :: tagChars r
  | r => '!' :: tagChars r

/-- The bytes that a tag counts as part of a key, with the exclamation mark in front of it. -/
def tagLength (tag : String) : Nat :=
  if tag.toList.head? = some '!' then tag.utf8ByteSize else tag.utf8ByteSize + 1

/-! ### Nodes -/

/-- Where a node is written: as the whole document, behind a dash, behind the mark of a key that
takes lines of its own or of its value, or behind a simple key and its colon. -/
inductive Place where
  | document
  | item
  | marked
  | value
  deriving DecidableEq, Repr

/-- The indentation of the entries of a collection whose parent's entries are indented by `n`. A
sequence behind a colon keeps the indentation of its key. -/
def Place.indent (place : Place) (tagged isSeq : Bool) (n : Nat) : Nat :=
  match place with
  | .document => 0
  | .item => n + 2
  | .marked => if isSeq && tagged then n else n + 2
  | .value => if isSeq then n else n + 2

/-- The indentation of the further lines of a scalar. -/
def Place.scalarIndent (place : Place) (n : Nat) : Nat :=
  if place = .document then 2 else n + 2

/-- What stands between a place and a node there. -/
def Place.gap (place : Place) : List Char := if place = .document then [] else [' ']

/-- Whether the first entry of a collection stands on the line of its place. -/
def Place.isInline (place : Place) (tagged : Bool) : Bool := place != .value && !tagged

/-- The tag of a node at a place, with the gap before it. -/
def Place.tag (place : Place) : Option String → List Char
  | none => []
  | some t => place.gap ++ tagText t

/-- What stands before the first entry of a collection. -/
def Place.opening (place : Place) (tag : Option String) (indent : Nat) : List Char :=
  place.tag tag ++ if place.isInline tag.isSome then place.gap else '\n' :: spaces indent

/-- A scalar or an empty collection at a place. -/
def Place.leaf (place : Place) (tag : Option String) (lines : List Char) : List Char :=
  endLine (place.tag tag ++ (if tag.isSome then [' '] else place.gap) ++ lines)

/-- The length of a key that can stand before its colon on one line; none for other values. -/
def keyLength? : Yaml → Option Nat
  | .str s => if s.toList.any isBreak then none else some s.utf8ByteSize
  | .tagged t v => (keyLength? v).map (tagLength t + ·)
  | .seq [] | .map [] => some 0
  | v => (leafLines? 0 v).map List.length

/-- Whether a key is written in front of its colon: it takes one line and at most 128 bytes. -/
def isSimpleKey (key : Yaml) : Bool := (keyLength? key).any (· ≤ 128)

/-- A key in front of its colon. -/
def simpleKeyText : Yaml → List Char
  | .tagged t v => tagText t ++ ' ' :: simpleKeyText v
  | v => (leafLines? 0 v).getD []

/-- The blocks of a collection, each but the first behind `m` spaces. -/
def indented (m : Nat) (blocks : List (List Char)) : List Char :=
  (blocks.intersperse (spaces m)).flatten

/-- A key with the mark of its value: in front of its colon, or behind a question mark on the lines
`long` of its own. -/
def keyLines (m : Nat) (key : Yaml) (long : List Char) : List Char :=
  if isSimpleKey key then simpleKeyText key ++ [':'] else '?' :: long ++ spaces m ++ [':']

/-- The place of the value of a key. -/
def valuePlace (key : Yaml) : Place := if isSimpleKey key then .value else .marked

mutual

/-- The lines of a node at a place in a collection whose entries are indented by `n`. -/
def nodeLines (place : Place) (tag : Option String) (n : Nat) : Yaml → List Char
  | .tagged t v => nodeLines place (some t) n v
  | .seq (x :: xs) =>
    let m := place.indent tag.isSome true n
    place.opening tag m ++ indented m (itemBlocks m (x :: xs))
  | .map (e :: es) =>
    let m := place.indent tag.isSome false n
    place.opening tag m ++ indented m (entryBlocks m (e :: es))
  | v => place.leaf tag ((leafLines? (place.scalarIndent n) v).getD [])

/-- The lines of each item of a sequence. -/
def itemBlocks (m : Nat) : List Yaml → List (List Char)
  | [] => []
  | x :: xs => ('-' :: nodeLines .item none m x) :: itemBlocks m xs

/-- The lines of each entry of a mapping. -/
def entryBlocks (m : Nat) : List (Yaml × Yaml) → List (List Char)
  | [] => []
  | (k, v) :: es =>
    (keyLines m k (nodeLines .marked none m k) ++ nodeLines (valuePlace k) none m v) ::
      entryBlocks m es

end

/-- The text of a document. -/
def render (v : Yaml) : String := String.ofList (nodeLines .document none 0 v)

end KubeCompose.Yaml
