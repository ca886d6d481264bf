import KubeCompose.Script.Word

/-!
# The tokens of a script

A script is cut into words, operators and redirections. A word knows the line on which it stands. A
text that stands in a script on lines of its own is taken out of them, and the rest of the line on
which it is announced goes on.
-/

namespace KubeCompose.Script

/-- How a redirection opens its target: the file is written anew, continued or read, the stream
joins another one, or the target is itself what is read. -/
inductive RedirectKind where
  | onto
  | behind
  | input
  | toStream
  | inputText
  deriving DecidableEq, Repr

/-- A part of a script. -/
inductive Token where
  | word (w : Word) (line : Nat)
  | operator (text : String)
  | redirect (stream : Nat) (kind : RedirectKind)
  deriving DecidableEq, Repr

/-- A character of a name. -/
def isNameChar (c : Char) : Bool := c.isAlphanum || c == '_'

/-- Whether a character ends a word. -/
def endsWord (c : Char) : Bool := " \t\n;&|<>()".toList.contains c

/-! ### Words -/

/-- The text up to the parenthesis that closes the one around it, and the text behind that. Within
the text, `depth` parentheses are open. -/
def upToClosing : Nat → List Char → Option (List Char × List Char)
  | _, [] => none
  | 0, ')' :: r => some ([], r)
  | depth + 1, ')' :: r => (upToClosing depth r).map fun (inside, rest) => (')' :: inside, rest)
  | depth, c :: r =>
    (upToClosing (if c = '(' then depth + 1 else depth) r).map fun (inside, rest) =>
      (c :: inside, rest)

/-- The piece of a text in parentheses behind a dollar sign: a calculation in two pairs of them, a
script in one. -/
def parenthesized (quoted : Bool) (inside : List Char) : Piece :=
  match inside, inside.getLast? with
  | '(' :: r, some ')' => .number r.dropLast
  | _, _ => .output inside quoted

/-- The parameter in braces: its name, and behind a dash what stands for it when it is empty. -/
def bracedParameter (quoted : Bool) (inside : List Char) : Piece :=
  let name := inside.takeWhile (· != '-')
  let otherwise := (inside.drop name.length).drop 1
  let name := if name.getLast? = some ':' then name.dropLast else name
  .parameter (String.ofList name) otherwise quoted

/-- The piece behind a dollar sign; without one the sign is text. -/
def readValue (quoted : Bool) (cs : List Char) : Piece × List Char :=
  match cs with
  | '{' :: r =>
    (bracedParameter quoted (r.takeWhile (· != '\x7d')), (r.dropWhile (· != '\x7d')).drop 1)
  | '(' :: r =>
    match upToClosing 0 r with
    | some (inside, rest) => (parenthesized quoted inside, rest)
    | none => (.text ['$'] quoted, cs)
  | c :: r =>
    if "@*#?$".toList.contains c || c.isDigit then
      (.parameter (String.singleton c) [] quoted, r)
    else if isNameChar c then
      (.parameter (String.ofList (cs.takeWhile isNameChar)) [] quoted, cs.dropWhile isNameChar)
    else (.text ['$'] quoted, cs)
  | [] => (.text ['$'] quoted, [])

/-- Reads the pieces of a word to the end of the word, in double quotes when `inQuotes` holds. -/
def readWord : Nat → Bool → Word → List Char → Option (Word × List Char)
  | 0, _, _, _ => none
  | n + 1, inQuotes, done, cs =>
    match cs with
    | [] => if inQuotes then none else some (done, [])
    | '"' :: r =>
      match inQuotes, r with
      | true, r => readWord n false done r
      | false, '"' :: r => readWord n false (done ++ [.text [] true]) r
      | false, r => readWord n true done r
    | '$' :: r =>
      let (piece, r) := readValue inQuotes r
      readWord n inQuotes (done ++ [piece]) r
    | '\x60' :: r =>
      let inside := r.takeWhile (· != '\x60')
      readWord n inQuotes (done ++ [.output inside inQuotes]) ((r.drop inside.length).drop 1)
    | '\\' :: '\n' :: r => readWord n inQuotes done r
    | '\\' :: c :: r =>
      let kept := if inQuotes && !("$\"\\\x60".toList.contains c) then ['\\', c] else [c]
      readWord n inQuotes (done ++ [.text kept true]) r
    | c :: r =>
      if inQuotes then readWord n true (done ++ [.text [c] true]) r
      else if c = '\'' then
        let inside := r.takeWhile (· != '\'')
        readWord n false (done ++ [.text inside true]) ((r.drop inside.length).drop 1)
      else if endsWord c then some (done, cs)
      else readWord n false (done ++ [.text [c] false]) r

/-- Joins the neighbouring texts of a word that are quoted alike. -/
def joinTexts : Word → Word
  | [] => []
  | piece :: rest =>
    match piece, joinTexts rest with
    | .text a qa, .text b qb :: more =>
      if qa = qb then .text (a ++ b) qa :: more else .text a qa :: .text b qb :: more
    | piece, rest => piece :: rest

/-! ### Texts on lines of their own -/

/-- The lines before the first one that is `mark`, and the lines behind it. -/
def linesBefore (mark : List Char) : List (List Char) → List (List Char) × List (List Char)
  | [] => ([], [])
  | line :: rest =>
    if line = mark then ([], rest)
    else
      let (before, behind) := linesBefore mark rest
      (line :: before, behind)

/-- Lines as one text, each ended. -/
def endedLines (lines : List (List Char)) : List Char := lines.flatMap (· ++ ['\n'])

/-- The pieces of a text as they are in double quotes; in it a quote is a character like others. -/
def quotedPieces (text : List Char) : Word :=
  let escaped := text.flatMap fun c => if c = '"' then ['\\', '"'] else [c]
  ((readWord (escaped.length + 2) true [] (escaped ++ ['"'])).map (·.1)).getD [.text text true]

/-- Reads the mark behind which a text on the following lines is announced: the word for the text,
and what is left of the script without its lines. -/
def readInputText (cs : List Char) : Option (Word × List Char) := do
  let (mark, rest) ← readWord (cs.length + 1) false [] (cs.dropWhile (· == ' '))
  let line := rest.takeWhile (· != '\n')
  let following := Text.splitOn '\n' ((rest.drop line.length).drop 1)
  let chars := mark.flatMap fun piece => match piece with
    | .text chars _ => chars
    | _ => []
  let isQuoted := mark.any fun piece => match piece with
    | .text _ quoted => quoted
    | _ => false
  let (lines, behind) := linesBefore chars following
  let text := endedLines lines
  return (if isQuoted then [.text text true] else quotedPieces text,
    line ++ '\n' :: (endedLines behind).dropLast)

/-! ### Tokens -/

/-- The operator at the front of a text. -/
def readOperator? : List Char → Option (Token × List Char)
  | ';' :: ';' :: r => some (.operator ";;", r)
  | ';' :: r => some (.operator ";", r)
  | '&' :: '&' :: r => some (.operator "&&", r)
  | '|' :: '|' :: r => some (.operator "||", r)
  | '|' :: r => some (.operator "|", r)
  | '(' :: r => some (.operator "(", r)
  | ')' :: r => some (.operator ")", r)
  | '>' :: '>' :: r => some (.redirect 1 .behind, r)
  | '>' :: '&' :: r => some (.redirect 1 .toStream, r)
  | '>' :: r => some (.redirect 1 .onto, r)
  | '<' :: r => some (.redirect 0 .input, r)
  | '2' :: '>' :: '>' :: r => some (.redirect 2 .behind, r)
  | '2' :: '>' :: '&' :: r => some (.redirect 2 .toStream, r)
  | '2' :: '>' :: r => some (.redirect 2 .onto, r)
  | '1' :: '>' :: '>' :: r => some (.redirect 1 .behind, r)
  | '1' :: '>' :: '&' :: r => some (.redirect 1 .toStream, r)
  | '1' :: '>' :: r => some (.redirect 1 .onto, r)
  | _ => none

/-- The tokens of a text that begins on a line; of at most `n` steps. -/
def tokens : Nat → Nat → List Char → Option (List Token)
  | 0, _, _ => none
  | n + 1, line, cs =>
    match cs with
    | [] => some []
    | '\n' :: r => (tokens n (line + 1) r).map (.operator ";" :: ·)
    | ' ' :: r | '\t' :: r => tokens n line r
    | '#' :: r => tokens n line (r.dropWhile (· != '\n'))
    | '<' :: '<' :: r => do
      let (w, r) ← readInputText r
      return .redirect 0 .inputText :: .word w line :: (← tokens n line r)
    | cs =>
      match readOperator? cs with
      | some (token, r) => (tokens n line r).map (token :: ·)
      | none => do
        let (w, r) ← readWord (cs.length + 1) false [] cs
        let passed := (cs.take (cs.length - r.length)).count '\n'
        return .word (joinTexts w) line :: (← tokens n (line + passed) r)

/-- The tokens of a script. -/
def tokensOf? (text : List Char) : Option (List Token) := tokens (text.length + 1) 1 text

end KubeCompose.Script
