/-!
# A place in a document text

A cursor holds the text that is still unread and its position. A carriage return with the line feed
after it is one line break.
-/

namespace KubeCompose.Yaml

/-- A space or a tab. -/
def isSpaceOrTab (c : Char) : Bool := c == ' ' || c == '\t'

/-- A character that ends a line. -/
def isBreak (c : Char) : Bool :=
  c == '\n' || c == '\r' || c == '\u0085' || c == '\u2028' || c == '\u2029'

/-- A space, a tab or a character that ends a line. -/
def isSpaceOrBreak (c : Char) : Bool := isSpaceOrTab c || isBreak c

/-- A character of anchors, handles and directive names: an ASCII letter or digit, `_` or `-`. -/
def isWordChar (c : Char) : Bool := c.isAlphanum || c == '_' || c == '-'

/-- Whether the text is at its end or at white space. -/
def endsWord : List Char → Bool
  | [] => true
  | c :: _ => isSpaceOrBreak c

/-- Whether the text is at its end or at the end of a line. -/
def endsLine : List Char → Bool
  | [] => true
  | c :: _ => isBreak c

/-- The number of bytes of a text. -/
def byteLength (cs : List Char) : Nat := cs.foldl (fun n c => n + c.utf8Size) 0

/-- The unread text and its position: the bytes before it, its line, and its column in characters.
-/
structure Cursor where
  rest : List Char
  index : Nat
  line : Nat
  column : Nat
  deriving Repr

namespace Cursor

/-- The start of a text. -/
def start (text : List Char) : Cursor := ⟨text, 0, 0, 0⟩

/-- The next character. -/
def peek? (c : Cursor) : Option Char := c.rest.head?

/-- Passes `n` characters of the current line. -/
def advance (c : Cursor) (n : Nat) : Cursor :=
  { c with
    rest := c.rest.drop n
    index := c.index + byteLength (c.rest.take n)
    column := c.column + n }

/-- Passes the longest run of characters that satisfy `p`, none of which ends a line. -/
def advanceWhile (c : Cursor) (p : Char → Bool) : Cursor := c.advance (c.rest.takeWhile p).length

/-- Passes a line break, if the cursor is at one. -/
def nextLine (c : Cursor) : Cursor :=
  match c.rest with
  | '\r' :: '\n' :: r => ⟨r, c.index + 2, c.line + 1, 0⟩
  | b :: r => if isBreak b then ⟨r, c.index + b.utf8Size, c.line + 1, 0⟩ else c
  | [] => c

/-- The text that a line break stands for: line and paragraph separators stand for themselves and
every other break for a line feed. -/
def breakText (c : Cursor) : List Char :=
  match c.rest with
  | b :: _ => if b == '\u2028' || b == '\u2029' then [b] else if isBreak b then ['\n'] else []
  | [] => []

/-- Whether a marker of three characters stands at the start of the line, followed by white space.
-/
def atMarker (c : Cursor) (mark : Char) : Bool :=
  c.column == 0 &&
    match c.rest with
    | a :: b :: d :: r => a == mark && b == mark && d == mark && endsWord r
    | _ => false

/-- Whether the cursor is at the start or the end marker of a document. -/
def atDocumentMarker (c : Cursor) : Bool := c.atMarker '-' || c.atMarker '.'

/-- Passes a comment up to the end of the line, if the cursor is at one. -/
def skipComment (c : Cursor) : Cursor :=
  if c.peek? = some '#' then c.advanceWhile (!isBreak ·) else c

end Cursor

end KubeCompose.Yaml
