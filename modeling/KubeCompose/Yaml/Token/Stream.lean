import KubeCompose.Yaml.Token.Name
import KubeCompose.Yaml.Token.Scalar

/-!
# The tokens of a text

A colon makes a key of what stands before it, so the place of every token that may turn out to be a
simple key is kept until the key is ruled out: a simple key stands on one line and takes at most
1024 bytes. When its colon comes, the key token is put in front of it, and the start of a block
mapping as well when the key is indented further than the block around it.
-/

namespace KubeCompose.Yaml

/-- A token that may be a simple key: how many tokens stand before it, and where it starts. A
required key stands at the indentation of its block, where nothing else can. -/
structure SimpleKey where
  position : Nat
  required : Bool
  index : Nat
  line : Nat
  column : Nat
  deriving Repr

/-- The state of a scan: the tokens so far, the indentation of the open blocks, and the possible key
of the current flow collection and of those around it. -/
structure Scan where
  cursor : Cursor
  tokens : Array Token
  indent : Int
  outerIndents : List Int
  simpleKey : Option SimpleKey
  outerKeys : List (Option SimpleKey)
  keyAllowed : Bool

namespace Scan

/-- The start of a scan. -/
def start (text : List Char) : Scan :=
  ⟨.start text, #[], -1, [], none, [], true⟩

/-- Whether a flow collection is open. -/
def inFlow (s : Scan) : Bool := !s.outerKeys.isEmpty

/-- Adds a token at the end. -/
def push (s : Scan) (t : Token) : Scan := { s with tokens := s.tokens.push t }

/-- Puts a token behind the first `position` ones. -/
def insertAt (s : Scan) (position : Nat) (t : Token) : Scan :=
  { s with tokens := s.tokens.insertIdxIfInBounds position t }

/-- Passes `n` characters. -/
def advance (s : Scan) (n : Nat) : Scan := { s with cursor := s.cursor.advance n }

/-- Opens a block at `column` when it is indented further; its token goes behind the first
`position` ones. -/
def openBlock (s : Scan) (column : Nat) (position : Nat) (t : Token) : Scan :=
  if !s.inFlow && s.indent < column then
    { s.insertAt position t with indent := column, outerIndents := s.indent :: s.outerIndents }
  else s

/-- Closes the blocks indented further than `column`. -/
def closeBlocks (s : Scan) (column : Int) : Scan :=
  if s.inFlow then s
  else
    let rec close (outer : List Int) (indent : Int) (tokens : Array Token) :
        List Int × Int × Array Token :=
      match outer with
      | [] => ([], indent, tokens)
      | i :: r =>
        if column < indent then close r i (tokens.push .blockEnd) else (outer, indent, tokens)
    let (outer, indent, tokens) := close s.outerIndents s.indent s.tokens
    { s with outerIndents := outer, indent := indent, tokens := tokens }

/-- Rules out the possible key here; a required one is an error. -/
def dropKey (s : Scan) : Except ReadError Scan :=
  if s.simpleKey.any (·.required) then .error .keyNotClosed else .ok { s with simpleKey := none }

/-- Takes the next token for a possible key, where one is allowed. -/
def saveKey (s : Scan) : Except ReadError Scan :=
  if s.keyAllowed then do
    let s ← s.dropKey
    pure { s with
      simpleKey := some
        { position := s.tokens.size
          required := !s.inFlow && s.indent = s.cursor.column
          index := s.cursor.index
          line := s.cursor.line
          column := s.cursor.column } }
  else pure s

/-- Whether a possible key has ended its line or grown too long. -/
def isStale (s : Scan) (k : SimpleKey) : Bool :=
  k.line < s.cursor.line || k.index + 1024 < s.cursor.index

/-- Rules out the keys that have become impossible. -/
def dropStaleKeys (s : Scan) : Except ReadError Scan :=
  let stale := fun (k : Option SimpleKey) => k.any s.isStale
  if (s.simpleKey :: s.outerKeys).any fun k => stale k && k.any (·.required) then
    .error .keyNotClosed
  else
    .ok { s with
      simpleKey := if stale s.simpleKey then none else s.simpleKey
      outerKeys := s.outerKeys.map fun k => if stale k then none else k }

/-- Passes white space, comments and line ends. A tab counts as white space where no key may
start, and a byte order mark where a line starts. `fuel` is more than the length of the text. -/
def skipToToken (s : Scan) : Nat → Scan
  | 0 => s
  | fuel + 1 =>
    let c := s.cursor
    let c := if c.column = 0 ∧ c.peek? = some '\ufeff' then c.advance 1 else c
    let tabs := s.inFlow || !s.keyAllowed
    let c := (c.advanceWhile fun ch => ch == ' ' || (tabs && ch == '\t')).skipComment
    if c.rest.head?.any isBreak then
      skipToToken { s with cursor := c.nextLine, keyAllowed := s.keyAllowed || !s.inFlow } fuel
    else { s with cursor := c }

/-- Opens a flow collection. -/
def openFlow (s : Scan) (t : Token) : Except ReadError Scan := do
  let s ← s.saveKey
  pure { (s.push t).advance 1 with
    simpleKey := none
    outerKeys := s.simpleKey :: s.outerKeys
    keyAllowed := true }

/-- Closes a flow collection. -/
def closeFlow (s : Scan) (t : Token) : Except ReadError Scan := do
  let s ← s.dropKey
  let s := { (s.push t).advance 1 with keyAllowed := false }
  match s.outerKeys with
  | [] => pure s
  | k :: r => pure { s with simpleKey := k, outerKeys := r }

/-- The comma between the entries of a flow collection. -/
def flowComma (s : Scan) : Except ReadError Scan := do
  let s ← s.dropKey
  pure { (s.push .comma).advance 1 with keyAllowed := true }

/-- Opens a block at the cursor for an indicator, where one may start. -/
def openAtIndicator (s : Scan) (indicator : Char) (t : Token) : Except ReadError Scan :=
  if s.inFlow then .ok s
  else if s.keyAllowed then .ok (s.openBlock s.cursor.column s.tokens.size t)
  else .error (.indicatorNotAllowed indicator)

/-- The dash of a sequence item. -/
def blockItem (s : Scan) : Except ReadError Scan := do
  let s ← s.openAtIndicator '-' .blockSeqStart
  let s ← s.dropKey
  pure { (s.push .item).advance 1 with keyAllowed := true }

/-- The question mark of a key. -/
def explicitKey (s : Scan) : Except ReadError Scan := do
  let s ← s.openAtIndicator '?' .blockMapStart
  let s ← s.dropKey
  pure { (s.push .key).advance 1 with keyAllowed := !s.inFlow }

/-- The colon before a value, which makes a key of the possible key before it. -/
def colon (s : Scan) : Except ReadError Scan := do
  let s ←
    match s.simpleKey with
    | some k =>
      let s := (s.insertAt k.position .key).openBlock k.column k.position .blockMapStart
      pure { s with simpleKey := none, keyAllowed := false }
    | none =>
      let s ← s.openAtIndicator ':' .blockMapStart
      pure { s with keyAllowed := !s.inFlow }
  pure ((s.push .value).advance 1)

/-- A marker at the start of a line that ends every block: a document marker or a directive. -/
def closeAll (s : Scan) : Except ReadError Scan := do
  let s ← (s.closeBlocks (-1)).dropKey
  pure { s with keyAllowed := false }

/-- A token that may be a simple key and is read by `read` behind its first `skip` characters. -/
def node (s : Scan) (skip : Nat) (read : Cursor → Except ReadError (Token × Cursor)) :
    Except ReadError Scan := do
  let s ← s.saveKey
  let (t, c) ← read (s.cursor.advance skip)
  pure { s.push t with cursor := c, keyAllowed := false }

/-- A plain scalar; a line end behind it lets a key follow. -/
def plain (s : Scan) (fuel : Nat) : Except ReadError Scan := do
  let s ← s.saveKey
  let (text, broken, c) ← scanPlain s.inFlow (s.indent + 1).toNat fuel .none s.cursor
  pure { s.push (.scalar (String.ofList text) true) with cursor := c, keyAllowed := broken }

/-- A quoted scalar. -/
def quoted (s : Scan) (fuel : Nat) (quote : Char) : Except ReadError Scan :=
  s.node 1 fun c => do
    let (text, c) ← scanQuoted quote fuel c
    pure (.scalar (String.ofList text) false, c)

/-- A block scalar. -/
def block (s : Scan) (fuel : Nat) (literal : Bool) : Except ReadError Scan := do
  let s ← s.dropKey
  let (text, c) ← scanBlock literal s.indent fuel (s.cursor.advance 1)
  pure { s.push (.scalar (String.ofList text) false) with cursor := c, keyAllowed := true }

/-- The characters that announce something else than a plain scalar. -/
def isIndicator (c : Char) : Bool := "-?:,[]\x7b\x7d#&*!|>'\"%@`".toList.contains c

/-- Whether a plain scalar starts with the character `c` before the text `r`. -/
def startsPlain (s : Scan) (c : Char) (r : List Char) : Bool :=
  !(isSpaceOrBreak c || isIndicator c) ||
    (c == '-' && !(r.head?.any isSpaceOrTab)) ||
    (!s.inFlow && (c == '?' || c == ':') && !endsWord r)

/-- Reads the token at the cursor, which starts with the character `c` before the text `r`. `fuel`
is more than the length of the text. -/
def readToken (s : Scan) (fuel : Nat) (c : Char) (r : List Char) : Except ReadError Scan :=
  if s.cursor.column = 0 ∧ c = '%' then do
    let s ← s.closeAll
    let (t, cursor) ← scanDirective (s.cursor.advance 1)
    pure { s.push t with cursor := cursor }
  else if s.cursor.atMarker '-' then do
    pure (((← s.closeAll).push .documentStart).advance 3)
  else if s.cursor.atMarker '.' then do
    pure (((← s.closeAll).push .documentEnd).advance 3)
  else if c = '[' then s.openFlow .flowSeqStart
  else if c = '{' then s.openFlow .flowMapStart
  else if c = ']' then s.closeFlow .flowSeqEnd
  else if c = '}' then s.closeFlow .flowMapEnd
  else if c = ',' then s.flowComma
  else if c = '-' ∧ endsWord r then s.blockItem
  else if c = '?' ∧ (s.inFlow || endsWord r) then s.explicitKey
  else if c = ':' ∧ (s.inFlow || endsWord r) then s.colon
  else if c = '*' then
    s.node 1 fun c => (scanAnchor c).map fun (name, c) => (.alias name, c)
  else if c = '&' then
    s.node 1 fun c => (scanAnchor c).map fun (name, c) => (.anchor name, c)
  else if c = '!' then s.node 1 (scanTag s.inFlow)
  else if c = '|' ∧ !s.inFlow then s.block fuel true
  else if c = '>' ∧ !s.inFlow then s.block fuel false
  else if c = '\'' then s.quoted fuel '\''
  else if c = '"' then s.quoted fuel '"'
  else if s.startsPlain c r then s.plain fuel
  else .error (.unexpectedCharacter c)

/-- Reads tokens up to the end of the text. Every token takes a character, so `fuel`, which is more
than the length of the text, bounds their number. -/
def run : Nat → Scan → Except ReadError (List Token)
  | 0, s => .ok s.tokens.toList
  | fuel + 1, s => do
    let s := s.skipToToken (fuel + 1)
    let s ← s.dropStaleKeys
    let s := s.closeBlocks s.cursor.column
    match s.cursor.rest with
    | [] =>
      let s ← (s.closeBlocks (-1)).dropKey
      pure s.tokens.toList
    | c :: r => run fuel (← s.readToken (fuel + 1) c r)

end Scan

/-- Whether a character may stand in a document text. -/
def isReadable (c : Char) : Bool :=
  let n := c.toNat
  n == 0x09 || n == 0x0A || n == 0x0D || (0x20 ≤ n && n ≤ 0x7E) || n == 0x85 ||
    (0xA0 ≤ n && n ≤ 0xD7FF) || (0xE000 ≤ n && n ≤ 0xFFFD) || 0x10000 ≤ n

/-- The tokens of a text. -/
def tokens (text : String) : Except ReadError (List Token) :=
  let cs := text.toList
  match cs.find? (!isReadable ·) with
  | some c => .error (.forbiddenCharacter c)
  | none => (Scan.start cs).run (cs.length + 1)

end KubeCompose.Yaml
