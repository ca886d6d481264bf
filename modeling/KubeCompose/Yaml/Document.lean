import KubeCompose.Yaml.Node
import KubeCompose.Yaml.Scalar

/-!
# Reading documents

A node becomes a value by giving each unquoted scalar its value, each local tag its place, and each
alias the value of its anchor. Collections nest at most 128 deep, aliases included, and one document
may follow at most a hundred times as many aliases as it has events.

`parseAll` reads the documents of a text and `parse` a text of one document; in both the keys of a
mapping differ. `Node.toYaml` lets them be repeated, for readers with a rule of their own for that.
-/

namespace KubeCompose.Yaml

namespace Node

/-- The properties of a node. -/
def anchor? : Node → Option Nat
  | .alias _ => none
  | .scalar p .. | .seq p _ | .map p _ => p.anchor

mutual

/-- The anchored nodes in the order in which they start. -/
def anchored (n : Node) : List (Nat × Node) :=
  let own := match n.anchor? with
    | some a => [(a, n)]
    | none => []
  own ++
    match n with
    | .seq _ items => anchoredItems items
    | .map _ entries => anchoredEntries entries
    | _ => []

/-- The anchored nodes of a list of nodes. -/
def anchoredItems : List Node → List (Nat × Node)
  | [] => []
  | n :: r => n.anchored ++ anchoredItems r

/-- The anchored nodes of a list of entries. -/
def anchoredEntries : List (Node × Node) → List (Nat × Node)
  | [] => []
  | (k, v) :: r => k.anchored ++ v.anchored ++ anchoredEntries r

end

mutual

/-- How many events a node makes: one for a scalar or an alias, a start and an end for a
collection. -/
def events : Node → Nat
  | .seq _ items => 2 + eventsItems items
  | .map _ entries => 2 + eventsEntries entries
  | _ => 1

/-- The events of a list of nodes. -/
def eventsItems : List Node → Nat
  | [] => 0
  | n :: r => n.events + eventsItems r

/-- The events of a list of entries. -/
def eventsEntries : List (Node × Node) → Nat
  | [] => 0
  | (k, v) :: r => k.events + v.events + eventsEntries r

end

/-- Whether a tag begins with an exclamation mark. -/
def isLocal (tag : TagBytes) : Bool := tag.head? == some '!'.toUInt8

/-- The local name of a tag that stays with its value: what follows its exclamation mark, and
another one if more follows that. A tag that is no text stays with none. -/
def localTag? (tag : TagBytes) : Option String :=
  (String.fromUTF8? ⟨tag.toArray⟩).bind fun t =>
    match t.toList with
    | ['!'] => some "!"
    | '!' :: '!' :: c :: r => some (String.ofList (c :: r))
    | '!' :: r => some (String.ofList r)
    | _ => none

/-- The value of a scalar with a tag that is not local: one of the standard ones, or another, which
makes a text of it. -/
def taggedScalar (tag : String) (text : String) : Except ReadError Yaml :=
  if tag = "tag:yaml.org,2002:bool" then
    match readBool? text with
    | some b => .ok (.bool b)
    | none => .error (.wrongScalar text "a boolean")
  else if tag = "tag:yaml.org,2002:int" then
    match readInteger text.toList with
    | .value n => .ok (.int n)
    | .beyondRange => .error (.integerBeyondRange text)
    | .notInteger => .error (.wrongScalar text "an integer")
  else if tag = "tag:yaml.org,2002:float" then
    match readFloat? text.toList with
    | some x => .ok (.float x)
    | none => .error (.wrongScalar text "a float")
  else if tag = "tag:yaml.org,2002:null" then
    if spellsNull text then .ok .null else .error (.wrongScalar text "null")
  else .ok (.str text)

/-- The value of a scalar: below a local tag it is read as if it had none. -/
def scalarValue (tag : Option TagBytes) (text : String) (plain : Bool) : Except ReadError Yaml :=
  let untagged : Except ReadError Yaml :=
    if plain then
      match ofPlain? text with
      | some v => .ok v
      | none => .error (.integerBeyondRange text)
    else .ok (.str text)
  match tag with
  | none => untagged
  | some tag =>
    if isLocal tag then
      match localTag? tag with
      | some name => untagged.map (.tagged name ·)
      | none => untagged
    else taggedScalar ((String.fromUTF8? ⟨tag.toArray⟩).getD "") text

/-- Puts the local tag of a collection on its value. -/
def withTag (tag : Option TagBytes) (v : Yaml) : Yaml :=
  match tag.bind localTag? with
  | some name => .tagged name v
  | none => v

/-- Builds values and counts the aliases that it may still follow. -/
abbrev Builder := StateT Nat (Except ReadError)

/-- The node an alias stands for, which is never an alias itself. A number given twice stands for
the node that starts last. -/
def target (anchors : List (Nat × Node)) (n : Node) : Builder Node :=
  match n with
  | .alias a => do
    match ← get with
    | 0 => throw .tooManyAliases
    | left + 1 =>
      set left
      match anchors.reverse.lookup a with
      | some n => return n
      | none => throw (.unknownAnchor "")
  | n => return n

/-- The value of a node in which collections nest at most `depth` deep. -/
def value (anchors : List (Nat × Node)) (depth : Nat) (n : Node) : Builder Yaml := do
  match ← target anchors n with
  | .alias _ => throw (.unknownAnchor "")
  | .scalar props text plain => scalarValue props.tag text plain
  | .seq props items =>
    match depth with
    | 0 => throw .tooDeep
    | depth + 1 => return withTag props.tag (.seq (← items.mapM (value anchors depth)))
  | .map props entries =>
    match depth with
    | 0 => throw .tooDeep
    | depth + 1 =>
      let entries ← entries.mapM fun (k, v) => do
        return (← value anchors depth k, ← value anchors depth v)
      return withTag props.tag (.map entries)

/-- The deepest nesting of collections. -/
def depthLimit : Nat := 128

/-- The value of the root node of a document, whose mappings may repeat a key. -/
def toYaml (n : Node) : Except ReadError Yaml :=
  ((n.value n.anchored depthLimit).run (n.events * 100)).map (·.1)

/-- The value of the root node of a document. -/
def document (n : Node) : Except ReadError Yaml := do
  let v ← n.toYaml
  if v.keysDiffer then return v else throw .duplicateKey

/-- The root nodes of the documents of a text. -/
def allOfText (text : String) : Except ReadError (List Node) := do ofTokens (← tokens text)

/-- The root node of a text of one document. -/
def ofText (text : String) : Except ReadError Node := do
  match ← allOfText text with
  | [] => return absent
  | [n] => return n
  | _ => throw .severalDocuments

/-- Whether nothing is written for a node but an anchor or a tag. -/
def isBlank : Node → Bool
  | .scalar _ text plain => plain && text.isEmpty
  | _ => false

end Node

/-- The documents of a text. -/
def parseAll (text : String) : Except ReadError (List Yaml) := do
  (← Node.allOfText text).mapM Node.document

/-- The document of a text; an empty text is null. -/
def parse (text : String) : Except ReadError Yaml := do (← Node.ofText text).document

end KubeCompose.Yaml
