import KubeCompose.Script.Token

/-!
# The structure of a script

A script is a small part of the command language of the shell: calls with redirections, groups,
pipes, `&&`, `||`, `!`, `if`, `case`, `while`, `until` and `for`. The tokens are read by descent;
what cannot be read is no script.
-/

namespace KubeCompose.Script

/-- A redirection of a stream. -/
structure Redirect where
  stream : Nat
  kind : RedirectKind
  target : Word
  deriving DecidableEq, Repr

/-- What a script does. A loop goes on as long as its condition holds, or as long as it does not. -/
inductive Command where
  | nothing
  | call (line : Nat) (assignments : List (String × Word)) (words : List Word)
      (redirects : List Redirect)
  | group (body : Command) (redirects : List Redirect)
  | apart (body : Command)
  | next (first second : Command)
  | both (first second : Command)
  | either (first second : Command)
  | negation (body : Command)
  | pipe (first second : Command)
  | branch (condition yes no : Command)
  | choice (subject : Word) (patterns : List Word) (body others : Command)
  | loop (whileTrue : Bool) (condition body : Command)
  | each (name : String) (words : List Word) (body : Command)
  deriving Repr

/-- The word at the front, when it is written without quotes and parameters. -/
def frontWord? : List Token → Option String
  | .word w _ :: _ => w.plain?
  | _ => none

/-- The words before which a list of commands ends. -/
def closingWords : List String := ["\x7d", "then", "elif", "else", "fi", "esac", "do", "done"]

/-- Whether a list of commands ends before the tokens. -/
def isClosed (ts : List Token) : Bool :=
  match ts with
  | [] | .operator ")" :: _ | .operator ";;" :: _ => true
  | _ => (frontWord? ts).any closingWords.contains

/-- Takes a given word off the front. -/
def expectWord (text : String) (ts : List Token) : Option (List Token) :=
  if frontWord? ts = some text then some (ts.drop 1) else none

/-- The tokens without semicolons in front. -/
def dropSemicolons (ts : List Token) : List Token := ts.dropWhile (· == .operator ";")

/-- The words and the redirections of a call. -/
def readCall : List Token → List Word × List Redirect × List Token
  | .word w _ :: rest =>
    let (words, redirects, rest) := readCall rest
    (w :: words, redirects, rest)
  | .redirect stream kind :: .word target _ :: rest =>
    let (words, redirects, rest) := readCall rest
    (words, ⟨stream, kind, target⟩ :: redirects, rest)
  | rest => ([], [], rest)

/-- The redirections at the front. -/
def readRedirects : List Token → List Redirect × List Token
  | .redirect stream kind :: .word target _ :: rest =>
    let (redirects, rest) := readRedirects rest
    (⟨stream, kind, target⟩ :: redirects, rest)
  | rest => ([], rest)

/-- The line of the first word. -/
def lineOf (ts : List Token) : Nat :=
  (ts.findSome? fun t => match t with
    | .word _ line => some line
    | _ => none).getD 1

/-- The name and the value of a word that assigns a variable. -/
def assignment? : Word → Option (String × Word)
  | .text chars false :: rest =>
    match Text.cutAt? '=' chars with
    | some (name, value) =>
      if !name.isEmpty && name.all isNameChar && !(name.head?.any Char.isDigit) then
        some (String.ofList name, .text value true :: rest)
      else none
    | none => none
  | _ => none

/-- The call of words with redirections: assignments stand in front. -/
def callOf (line : Nat) (words : List Word) (redirects : List Redirect) : Command :=
  let assigned := words.takeWhile fun w => (assignment? w).isSome
  .call line (assigned.filterMap assignment?) (words.drop assigned.length) redirects

/-- The patterns of an arm, up to the closing parenthesis. -/
def readPatterns : List Token → Option (List Word × List Token)
  | .operator "(" :: rest => readPatterns rest
  | .word w _ :: .operator ")" :: rest => some ([w], rest)
  | .word w _ :: .operator "|" :: rest => (readPatterns rest).map fun (ws, rest) => (w :: ws, rest)
  | _ => none

/-- The words up to the next semicolon. -/
def readWords : List Token → List Word × List Token
  | .word w _ :: rest =>
    let (words, rest) := readWords rest
    (w :: words, rest)
  | rest => ([], rest)

mutual

/-- Reads a list of commands. -/
def readList : Nat → List Token → Option (Command × List Token)
  | 0, _ => none
  | n + 1, ts =>
    let ts := dropSemicolons ts
    if isClosed ts then some (.nothing, ts)
    else do
      let (first, ts) ← readAndOr n ts
      let (second, ts) ← readList n ts
      return (.next first second, ts)

/-- Reads pipes joined by `&&` and `||`. -/
def readAndOr : Nat → List Token → Option (Command × List Token)
  | 0, _ => none
  | n + 1, ts => do
    let (first, ts) ← readPipe n ts
    readMore n first ts

/-- Reads what `&&` and `||` join to a command. -/
def readMore : Nat → Command → List Token → Option (Command × List Token)
  | 0, _, _ => none
  | n + 1, first, ts =>
    match ts with
    | .operator "&&" :: ts => do
      let (second, ts) ← readPipe n (dropSemicolons ts)
      readMore n (.both first second) ts
    | .operator "||" :: ts => do
      let (second, ts) ← readPipe n (dropSemicolons ts)
      readMore n (.either first second) ts
    | ts => some (first, ts)

/-- Reads commands joined by pipes. -/
def readPipe : Nat → List Token → Option (Command × List Token)
  | 0, _ => none
  | n + 1, ts => do
    if frontWord? ts = some "!" then
      let (body, ts) ← readPipe n (ts.drop 1)
      return (.negation body, ts)
    let (first, ts) ← readCommand n ts
    match ts with
    | .operator "|" :: ts =>
      let (second, ts) ← readPipe n (dropSemicolons ts)
      return (.pipe first second, ts)
    | ts => return (first, ts)

/-- Reads a command. -/
def readCommand : Nat → List Token → Option (Command × List Token)
  | 0, _ => none
  | n + 1, ts =>
    match ts, frontWord? ts with
    | .operator "(" :: ts, _ => do
      let (body, ts) ← readList n ts
      match ts with
      | .operator ")" :: ts =>
        let (redirects, ts) := readRedirects ts
        return (.group (.apart body) redirects, ts)
      | _ => none
    | ts, some "\x7b" => do
      let (body, ts) ← readList n (ts.drop 1)
      let (redirects, ts) := readRedirects (← expectWord "\x7d" ts)
      return (.group body redirects, ts)
    | ts, some "if" => do
      let (command, ts) ← readBranch n (ts.drop 1)
      let (redirects, ts) := readRedirects ts
      return (.group command redirects, ts)
    | ts, some "while" => readLoop n true (ts.drop 1)
    | ts, some "until" => readLoop n false (ts.drop 1)
    | ts, some "for" =>
      match ts.drop 1 with
      | .word w _ :: ts => do
        let name ← w.plain?
        let (words, ts) ←
          match expectWord "in" (dropSemicolons ts) with
          | some ts => some (readWords ts)
          | none => some ([[.parameter "@" [] true]], ts)
        let (body, ts) ← readBody n ts
        let (redirects, ts) := readRedirects ts
        return (.group (.each name words body) redirects, ts)
      | _ => none
    | ts, some "case" =>
      match ts.drop 1 with
      | .word subject _ :: ts => do
        let ts ← expectWord "in" (dropSemicolons ts)
        let (command, ts) ← readArms n subject ts
        let (redirects, ts) := readRedirects ts
        return (.group command redirects, ts)
      | _ => none
    | ts, _ =>
      let (words, redirects, rest) := readCall ts
      if words.isEmpty && redirects.isEmpty then none
      else some (callOf (lineOf ts) words redirects, rest)

/-- Reads the body of a loop. -/
def readBody : Nat → List Token → Option (Command × List Token)
  | 0, _ => none
  | n + 1, ts => do
    let (body, ts) ← readList n (← expectWord "do" (dropSemicolons ts))
    return (body, ← expectWord "done" ts)

/-- Reads the condition and the body of a loop. -/
def readLoop : Nat → Bool → List Token → Option (Command × List Token)
  | 0, _, _ => none
  | n + 1, whileTrue, ts => do
    let (condition, ts) ← readList n ts
    let (body, ts) ← readBody n ts
    let (redirects, ts) := readRedirects ts
    return (.group (.loop whileTrue condition body) redirects, ts)

/-- Reads a condition and its branches. -/
def readBranch : Nat → List Token → Option (Command × List Token)
  | 0, _ => none
  | n + 1, ts => do
    let (condition, ts) ← readList n ts
    let (yes, ts) ← readList n (← expectWord "then" ts)
    match frontWord? ts with
    | some "elif" =>
      let (no, ts) ← readBranch n (ts.drop 1)
      return (.branch condition yes no, ts)
    | some "else" =>
      let (no, ts) ← readList n (ts.drop 1)
      return (.branch condition yes no, ← expectWord "fi" ts)
    | _ => return (.branch condition yes .nothing, ← expectWord "fi" ts)

/-- Reads the arms of a choice. -/
def readArms : Nat → Word → List Token → Option (Command × List Token)
  | 0, _, _ => none
  | n + 1, subject, ts =>
    let ts := dropSemicolons ts
    match expectWord "esac" ts with
    | some ts => some (.nothing, ts)
    | none => do
      let (patterns, ts) ← readPatterns ts
      let (body, ts) ← readList n ts
      let ts := match ts with
        | .operator ";;" :: ts => ts
        | ts => ts
      let (others, ts) ← readArms n subject ts
      return (.choice subject patterns body others, ts)

end

/-- The command that a text describes. -/
def Command.ofText? (text : List Char) : Option Command := do
  let ts ← tokensOf? text
  match ← readList (8 * (ts.length + 1)) ts with
  | (command, []) => return command
  | _ => none

end KubeCompose.Script
