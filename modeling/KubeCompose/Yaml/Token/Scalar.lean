import KubeCompose.Number.Digits
import KubeCompose.Yaml.Cursor
import KubeCompose.Yaml.ReadError

/-!
# Scalars in a document text

Quoted and plain scalars are runs of characters with gaps of white space between them; a gap with a
line break is folded. Block scalars keep their lines, or fold them in the folded style.

Each reader starts behind the character that announces the scalar and returns the text of the
scalar and the cursor behind it.
-/

namespace KubeCompose.Yaml

open Number (readDigits? digitValue?)

/-- White space between two runs of a scalar: the blanks when no line ends in it, otherwise the
texts of its first break and of the further ones. -/
structure Gap where
  blanks : List Char
  firstBreak : List Char
  laterBreaks : List Char
  broken : Bool

namespace Gap

/-- No white space. -/
def none : Gap := ⟨[], [], [], false⟩

/-- The gap that an escaped line break opens. -/
def escapedBreak : Gap := ⟨[], [], [], true⟩

/-- What a gap stands for: one line feed is a space, and of several the first is dropped. -/
def text (g : Gap) : List Char :=
  if g.broken then
    if g.firstBreak.head? = some '\n' then
      if g.laterBreaks.isEmpty then [' '] else g.laterBreaks
    else g.firstBreak ++ g.laterBreaks
  else g.blanks

/-- Reads white space. In a plain scalar of a block, a tab left of column `margin` at the start of a
line is refused. `fuel` is at least the length of the text. -/
def scan (margin : Nat) : Nat → Gap → Cursor → Except ReadError (Gap × Cursor)
  | 0, g, c => .ok (g, c)
  | fuel + 1, g, c =>
    match c.rest with
    | [] => .ok (g, c)
    | b :: _ =>
      if isSpaceOrTab b then
        if g.broken then
          if b = '\t' ∧ c.column < margin then .error .tabInIndentation
          else scan margin fuel g (c.advance 1)
        else scan margin fuel { g with blanks := g.blanks ++ [b] } (c.advance 1)
      else if isBreak b then
        if g.broken then
          scan margin fuel { g with laterBreaks := g.laterBreaks ++ c.breakText } c.nextLine
        else scan margin fuel ⟨[], c.breakText, [], true⟩ c.nextLine
      else .ok (g, c)

end Gap

/-! ### Plain scalars -/

/-- The characters that end a plain scalar inside brackets and braces. -/
def endsFlowWord (c : Char) : Bool :=
  c == ',' || c == '[' || c == ']' || c == '{' || c == '}'

/-- The run of plain characters at the front of a text. -/
def plainRun (inFlow : Bool) : List Char → Except ReadError (List Char)
  | [] => .ok []
  | c :: r =>
    if isSpaceOrBreak c then .ok []
    else if inFlow && c == ':' && (r.head?.any fun d => endsFlowWord d || d == '?') then
      .error .unexpectedColon
    else if (c == ':' && endsWord r) || (inFlow && endsFlowWord c) then .ok []
    else (plainRun inFlow r).map (c :: ·)

/-- Reads what is left of a plain scalar behind the gap `g`: its text, whether a line ended behind
it, and the cursor. `fuel` is more than the length of the text. -/
def scanPlain (inFlow : Bool) (margin : Nat) :
    Nat → Gap → Cursor → Except ReadError (List Char × Bool × Cursor)
  | 0, g, c => .ok ([], g.broken, c)
  | fuel + 1, g, c =>
    if c.atDocumentMarker || c.peek? == some '#' then .ok ([], g.broken, c)
    else do
      let run ← plainRun inFlow c.rest
      let (front, g) := if run.isEmpty then ([], g) else (g.text ++ run, Gap.none)
      let c := c.advance run.length
      if c.rest.head?.any isSpaceOrBreak then
        let (g, c) ← g.scan margin fuel c
        if !inFlow && c.column < margin then .ok (front, g.broken, c)
        else
          let (text, broken, c) ← scanPlain inFlow margin fuel g c
          .ok (front ++ text, broken, c)
      else .ok (front, g.broken, c)

/-! ### Quoted scalars -/

/-- The character that an escape mark of one letter stands for. -/
def escaped? (c : Char) : Option Char :=
  match c with
  | '0' => some '\x00'
  | 'a' => some '\x07'
  | 'b' => some '\x08'
  | 't' | '\t' => some '\t'
  | 'n' => some '\n'
  | 'v' => some '\x0b'
  | 'f' => some '\x0c'
  | 'r' => some '\r'
  | 'e' => some '\x1b'
  | ' ' => some ' '
  | '"' => some '"'
  | '/' => some '/'
  | '\\' => some '\\'
  | 'N' => some '\u0085'
  | '_' => some '\u00a0'
  | 'L' => some '\u2028'
  | 'P' => some '\u2029'
  | _ => none

/-- How many hexadecimal digits follow an escape mark. -/
def escapeWidth? (c : Char) : Option Nat :=
  match c with
  | 'x' => some 2
  | 'u' => some 4
  | 'U' => some 8
  | _ => none

/-- A run of a quoted scalar: its characters, how many characters of the text it takes, and whether
it ends with an escaped line break, which it leaves unread. -/
structure QuotedRun where
  chars : List Char
  length : Nat
  escapedBreak : Bool

/-- Puts a character in front of a run. -/
def QuotedRun.cons (c : Char) (width : Nat) (r : QuotedRun) : QuotedRun :=
  { r with chars := c :: r.chars, length := r.length + width }

/-- The run of a single-quoted scalar up to white space or the closing quote; a quote is written
twice. -/
def singleQuotedRun : List Char → QuotedRun
  | '\'' :: '\'' :: r => (singleQuotedRun r).cons '\'' 2
  | [] => ⟨[], 0, false⟩
  | c :: r =>
    if c == '\'' || isSpaceOrBreak c then ⟨[], 0, false⟩ else (singleQuotedRun r).cons c 1

/-- The run of a double-quoted scalar up to white space, the closing quote or an escaped break. -/
def doubleQuotedRun (cs : List Char) : Except ReadError QuotedRun :=
  match cs with
  | [] => .ok ⟨[], 0, false⟩
  | '\\' :: r =>
    match r with
    | [] => .error .badEscape
    | e :: t =>
      if isBreak e then .ok ⟨[], 1, true⟩
      else
        match escaped? e with
        | some c => (doubleQuotedRun t).map (·.cons c 2)
        | none =>
          match escapeWidth? e with
          | none => .error .badEscape
          | some width =>
            if (t.take width).length = width then
              match readDigits? 16 (t.take width) with
              | some n =>
                if n.isValidChar then
                  (doubleQuotedRun (t.drop width)).map (·.cons (Char.ofNat n) (2 + width))
                else .error .badEscape
              | none => .error .badEscape
            else .error .badEscape
  | c :: r =>
    if c == '"' || isSpaceOrBreak c then .ok ⟨[], 0, false⟩
    else (doubleQuotedRun r).map (·.cons c 1)
termination_by cs.length
decreasing_by all_goals simp_all <;> omega

/-- Reads what is left of a quoted scalar up to and with its closing quote. `fuel` is more than the
length of the text. -/
def scanQuoted (quote : Char) : Nat → Cursor → Except ReadError (List Char × Cursor)
  | 0, _ => .error .scalarNotClosed
  | fuel + 1, c =>
    if c.atDocumentMarker || c.rest.isEmpty then .error .scalarNotClosed
    else do
      let run ← if quote = '"' then doubleQuotedRun c.rest else .ok (singleQuotedRun c.rest)
      let c := c.advance run.length
      let (g, c) := if run.escapedBreak then (Gap.escapedBreak, c.nextLine) else (Gap.none, c)
      if c.peek? = some quote then .ok (run.chars, c.advance 1)
      else
        let (g, c) ← g.scan 0 fuel c
        let (text, c) ← scanQuoted quote fuel c
        .ok (run.chars ++ g.text ++ text, c)

/-! ### Block scalars -/

/-- What becomes of the line breaks at the end of a block scalar. -/
inductive Chomp where
  | strip
  | clip
  | keep
  deriving DecidableEq, Repr

/-- Reads the hints behind the mark of a block scalar: the treatment of its end and the number of
columns by which it is indented, in either order. -/
def scanBlockHints (c : Cursor) : Except ReadError (Chomp × Option Nat × Cursor) :=
  let chomp? (c : Cursor) : Option Chomp :=
    match c.peek? with
    | some '+' => some .keep
    | some '-' => some .strip
    | _ => none
  let columns? (c : Cursor) : Option Nat :=
    match c.peek? with
    | some d => if Number.isDigit d then digitValue? d else none
    | none => none
  match chomp? c with
  | some chomp =>
    let c := c.advance 1
    match columns? c with
    | some 0 => .error .badBlockHeader
    | some n => .ok (chomp, some n, c.advance 1)
    | none => .ok (chomp, none, c)
  | none =>
    match columns? c with
    | some 0 => .error .badBlockHeader
    | some n =>
      let c := c.advance 1
      match chomp? c with
      | some chomp => .ok (chomp, some n, c.advance 1)
      | none => .ok (.clip, some n, c)
    | none => .ok (.clip, none, c)

/-- Reads the empty lines in front of a line of a block scalar and that line's indentation: the
texts of the breaks, the widest indentation seen, and the cursor. Without a known `margin` all
spaces are indentation. `fuel` is at least the length of the text. -/
def scanEmptyLines (margin : Option Nat) :
    Nat → Nat → Cursor → Except ReadError (List Char × Nat × Cursor)
  | 0, widest, c => .ok ([], widest, c)
  | fuel + 1, widest, c =>
    let spaces := (c.rest.takeWhile (· == ' ')).length
    let c :=
      match margin with
      | none => c.advance spaces
      | some m => c.advance (min spaces (m - c.column))
    let widest := max widest c.column
    if c.peek? = some '\t' ∧ margin.all (c.column < ·) then .error .tabInIndentation
    else if c.rest.head?.any isBreak then do
      let (breaks, widest, after) ← scanEmptyLines margin fuel widest c.nextLine
      .ok (c.breakText ++ breaks, widest, after)
    else .ok ([], widest, c)

/-- Reads what is left of the lines of a block scalar that stand at column `margin`, behind the
break `lineBreak` that ended a line and the breaks `emptyLines` after it: their text, and the breaks
behind them. `fuel` is more than the length of the text. -/
def scanBlockLines (literal : Bool) (margin : Nat) :
    Nat → List Char → List Char → Bool → Cursor →
      Except ReadError (List Char × List Char × List Char × Cursor)
  | 0, lineBreak, emptyLines, _, c => .ok ([], lineBreak, emptyLines, c)
  | fuel + 1, lineBreak, emptyLines, afterBlank, c =>
    if c.column = margin ∧ !c.rest.isEmpty then do
      let blankFirst := c.rest.head?.any isSpaceOrTab
      let folds := !literal && lineBreak.head? = some '\n' && !afterBlank && !blankFirst
      let between :=
        if folds then if emptyLines.isEmpty then [' '] else emptyLines else lineBreak ++ emptyLines
      let content := c.rest.takeWhile (!isBreak ·)
      let c := c.advance content.length
      let lineBreak := c.breakText
      let c := c.nextLine
      let (emptyLines, _, c) ← scanEmptyLines (some margin) fuel 0 c
      let (text, breaks) ← scanBlockLines literal margin fuel lineBreak emptyLines blankFirst c
      .ok (between ++ content ++ text, breaks)
    else .ok ([], lineBreak, emptyLines, c)

/-- Reads a block scalar behind its mark, in a block whose indentation is `indent`. `fuel` is more
than the length of the text. -/
def scanBlock (literal : Bool) (indent : Int) (fuel : Nat) (c : Cursor) :
    Except ReadError (List Char × Cursor) := do
  let (chomp, columns, c) ← scanBlockHints c
  let c := (c.advanceWhile isSpaceOrTab).skipComment
  if !endsLine c.rest then throw .badBlockHeader
  let c := c.nextLine
  let margin := columns.map fun n => indent.toNat + n
  let (emptyLines, widest, c) ← scanEmptyLines margin fuel 0 c
  let margin := margin.getD (max widest (max (indent + 1).toNat 1))
  let (text, lineBreak, emptyLines, c) ←
    scanBlockLines literal margin fuel [] emptyLines false c
  let tail :=
    match chomp with
    | .strip => []
    | .clip => lineBreak
    | .keep => lineBreak ++ emptyLines
  pure (text ++ tail, c)

end KubeCompose.Yaml
