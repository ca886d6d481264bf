import KubeCompose.OrderedMap
import KubeCompose.Yaml.Token.Stream

/-!
# The nodes of a document text

A document text is a list of nodes: scalars, sequences and mappings with an optional anchor and tag,
and aliases of anchored nodes. `Node.ofTokens` reads the nodes of all documents from the tokens.

The grammar is read by functions of which every second one takes a token before it calls another, so
twice the number of tokens bounds their depth.
-/

namespace KubeCompose.Yaml

/-- What an anchor and a tag say about a node. Anchors are numbered. -/
structure Properties where
  anchor : Option Nat
  tag : Option TagBytes
  deriving Repr, Inhabited

/-- A node. An alias holds the number of its anchor. -/
inductive Node where
  | alias (anchor : Nat)
  | scalar (props : Properties) (text : String) (plain : Bool)
  | seq (props : Properties) (items : List Node)
  | map (props : Properties) (entries : List (Node × Node))
  deriving Repr, Inhabited

namespace Node

/-- The node that stands for an absent one. -/
def absent : Node := .scalar ⟨none, none⟩ "" true

/-- What is still to read of a document: its tokens, the tag handles it declares, and the number
that each anchor name has last been given. -/
structure Source where
  tokens : List Token
  handles : List (String × TagBytes)
  anchors : List (String × Nat)

/-- A reader of a part of a document. -/
abbrev Reader := StateT Source (Except ReadError)

namespace Reader

/-- The next token. -/
def peek? : Reader (Option Token) := return (← get).tokens.head?

/-- Passes a token. -/
def skip : Reader Unit := modify fun s => { s with tokens := s.tokens.tail }

/-- Whether the next token is `t`. -/
def isAt (t : Token) : Reader Bool := return (← peek?) == some t

/-- Whether the next token is one of `ts`. -/
def isAtAny (ts : List Token) : Reader Bool := return (← peek?).any (ts.contains ·)

/-- Passes the token `t`, if it is next, and says whether it was. -/
def accept (t : Token) : Reader Bool := do
  if ← isAt t then
    skip
    return true
  else return false

/-- Numbers an anchor: by how many names have been given before. A name that comes again takes a
number without adding a name, so the next new name takes the same number. -/
def defineAnchor (name : String) : Reader Nat := do
  let s ← get
  let number := s.anchors.length
  set { s with anchors := OrderedMap.insert s.anchors name number }
  return number

/-- The number of an anchor. -/
def anchorNumber (name : String) : Reader Nat := do
  match OrderedMap.find? (← get).anchors name with
  | some n => return n
  | none => throw (.unknownAnchor name)

/-- The full form of a tag. -/
def resolveTag (handle : String) (suffix : TagBytes) : Reader TagBytes := do
  if handle = "" then return suffix
  match OrderedMap.find? (← get).handles handle with
  | some replacement => return replacement ++ suffix
  | none => throw (.unknownTagHandle handle)

/-- Reads an anchor and a tag in either order, as written. -/
def rawProperties : Reader (Option String × Option (String × TagBytes)) := do
  match ← peek? with
  | some (.anchor name) =>
    skip
    match ← peek? with
    | some (.tag handle suffix) =>
      skip
      return (some name, some (handle, suffix))
    | _ => return (some name, none)
  | some (.tag handle suffix) =>
    skip
    match ← peek? with
    | some (.anchor name) =>
      skip
      return (some name, some (handle, suffix))
    | _ => return (none, some (handle, suffix))
  | _ => return (none, none)

/-- Reads an anchor and a tag in either order. -/
def properties : Reader Properties := do
  let (anchor, tag) ← rawProperties
  let tag ← tag.mapM fun (handle, suffix) => resolveTag handle suffix
  let anchor ← anchor.mapM defineAnchor
  return ⟨anchor, tag⟩

end Reader

open Reader

mutual

/-- Reads a node. `block` admits block collections, `dashes` also a sequence that is not indented
further than the mapping around it. -/
def read (block dashes : Bool) : Nat → Reader Node
  | 0 => throw .unexpectedToken
  | fuel + 1 => do
    match ← peek? with
    | some (.alias name) =>
      skip
      return .alias (← anchorNumber name)
    | _ =>
      let props ← properties
      match ← peek? with
      | some .item =>
        if dashes then return .seq props (← readDashes fuel)
        else readAbsent props
      | some (.scalar text plain) =>
        skip
        return .scalar props text plain
      | some .flowSeqStart =>
        skip
        return .seq props (← readFlowSeq true fuel)
      | some .flowMapStart =>
        skip
        return .map props (← readFlowMap true fuel)
      | some .blockSeqStart =>
        if block then
          skip
          return .seq props (← readBlockSeq fuel)
        else readAbsent props
      | some .blockMapStart =>
        if block then
          skip
          return .map props (← readBlockMap fuel)
        else readAbsent props
      | _ => readAbsent props

/-- A node with properties alone is an empty scalar. -/
def readAbsent (props : Properties) : Reader Node :=
  if props.anchor.isSome || props.tag.isSome then return .scalar props "" true
  else throw .unexpectedToken

/-- Reads the items of an indented sequence. -/
def readBlockSeq : Nat → Reader (List Node)
  | 0 => throw .unexpectedToken
  | fuel + 1 => do
    if ← accept .item then
      let node ←
        if ← isAtAny [.item, .blockEnd] then pure absent else read true false fuel
      return node :: (← readBlockSeq fuel)
    else if ← accept .blockEnd then return []
    else throw .unexpectedToken

/-- Reads the items of a sequence that is not indented further than its mapping. -/
def readDashes : Nat → Reader (List Node)
  | 0 => throw .unexpectedToken
  | fuel + 1 => do
    if ← accept .item then
      let node ←
        if ← isAtAny [.item, .key, .value, .blockEnd] then pure absent else read true false fuel
      return node :: (← readDashes fuel)
    else return []

/-- Reads the entries of a block mapping. -/
def readBlockMap : Nat → Reader (List (Node × Node))
  | 0 => throw .unexpectedToken
  | fuel + 1 => do
    if ← accept .key then
      let ends := [.key, .value, .blockEnd]
      let key ← if ← isAtAny ends then pure absent else read true true fuel
      let value ←
        if ← accept .value then
          if ← isAtAny ends then pure absent else read true true fuel
        else pure absent
      return (key, value) :: (← readBlockMap fuel)
    else if ← accept .blockEnd then return []
    else throw .unexpectedToken

/-- Reads the items of a sequence in brackets; a key among them makes a mapping of one entry. -/
def readFlowSeq (first : Bool) : Nat → Reader (List Node)
  | 0 => throw .unexpectedToken
  | fuel + 1 => do
    if ← accept .flowSeqEnd then return []
    if !first then
      if !(← accept .comma) then throw .unexpectedToken
    if ← accept .flowSeqEnd then return []
    if ← accept .key then
      let key ←
        if ← isAtAny [.value, .comma, .flowSeqEnd] then
          skip
          pure absent
        else read false false fuel
      let value ←
        if ← accept .value then
          if ← isAtAny [.comma, .flowSeqEnd] then pure absent else read false false fuel
        else pure absent
      return .map ⟨none, none⟩ [(key, value)] :: (← readFlowSeq false fuel)
    else
      let node ← read false false fuel
      return node :: (← readFlowSeq false fuel)

/-- Reads the entries of a mapping in braces; an entry without a key mark has no value. -/
def readFlowMap (first : Bool) : Nat → Reader (List (Node × Node))
  | 0 => throw .unexpectedToken
  | fuel + 1 => do
    if ← accept .flowMapEnd then return []
    if !first then
      if !(← accept .comma) then throw .unexpectedToken
    if ← accept .flowMapEnd then return []
    if ← accept .key then
      let ends := [.value, .comma, .flowMapEnd]
      let key ← if ← isAtAny ends then pure absent else read false false fuel
      let value ←
        if ← accept .value then
          if ← isAtAny [.comma, .flowMapEnd] then pure absent else read false false fuel
        else pure absent
      return (key, value) :: (← readFlowMap false fuel)
    else
      let key ← read false false fuel
      return (key, absent) :: (← readFlowMap false fuel)

end

/-- The handles that every document knows. -/
def standardHandles : List (String × TagBytes) :=
  [("!", "!".toUTF8.toList), ("!!", "tag:yaml.org,2002:".toUTF8.toList)]

/-- Reads the directives in front of a document: the tag handles they declare, and whether a version
is among them. -/
def readDirectives (handles : List (String × TagBytes)) (versioned : Bool) :
    Nat → Reader (List (String × TagBytes))
  | 0 => return handles
  | fuel + 1 => do
    match ← peek? with
    | some (.version major minor) =>
      if versioned || major != 1 || !(minor == 1 || minor == 2) then throw .badDirective
      skip
      readDirectives handles true fuel
    | some (.tagHandle handle replacement) =>
      if OrderedMap.contains handles handle then throw .badDirective
      skip
      readDirectives (handles ++ [(handle, replacement)]) versioned fuel
    | _ => return handles

/-- Reads the next document, if there is one. Only the first may begin without a start marker. -/
def readDocument? (first : Bool) (fuel : Nat) : Reader (Option Node) := do
  if !first then
    modify fun s => { s with tokens := s.tokens.dropWhile (· == .documentEnd) }
  if (← get).tokens.isEmpty then return none
  modify fun s => { s with anchors := [] }
  let bare := first && !((← peek?).any (·.isDirective))
  let handles ← readDirectives [] false fuel
  modify fun s => { s with handles := handles ++ standardHandles }
  let started ← accept .documentStart
  if !started && !bare then throw .unexpectedToken
  let node ←
    if started then
      let next ← peek?
      if next.all fun t => t.isDirective || t == .documentStart || t == .documentEnd then
        pure absent
      else read true false fuel
    else read true false fuel
  let _ ← accept .documentEnd
  return some node

/-- Reads the documents that are left. -/
def readDocuments (first : Bool) (size : Nat) : Nat → Reader (List Node)
  | 0 => return []
  | fuel + 1 => do
    match ← readDocument? first size with
    | none => return []
    | some node => return node :: (← readDocuments false size fuel)

/-- The nodes of the documents of a token list. -/
def ofTokens (tokens : List Token) : Except ReadError (List Node) :=
  let size := 2 * tokens.length + 2
  ((readDocuments true size size).run ⟨tokens, [], []⟩).map (·.1)

end Node

end KubeCompose.Yaml
