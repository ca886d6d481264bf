/-!
# Tokens of a document text
-/

namespace KubeCompose.Yaml

/-- The bytes of a tag. Escapes can make bytes of it that are no text. -/
abbrev TagBytes := List UInt8

/-- A token. Block collections are opened and closed by the indentation of the text, so their tokens
stand for no characters of their own. -/
inductive Token where
  | version (major minor : Nat)
  | tagHandle (handle : String) (replacement : TagBytes)
  | documentStart
  | documentEnd
  | blockSeqStart
  | blockMapStart
  | blockEnd
  | flowSeqStart
  | flowSeqEnd
  | flowMapStart
  | flowMapEnd
  | item
  | comma
  | key
  | value
  | alias (name : String)
  | anchor (name : String)
  | tag (handle : String) (suffix : TagBytes)
  | scalar (text : String) (plain : Bool)
  deriving DecidableEq, Repr

/-- Whether a token is a directive. -/
def Token.isDirective : Token → Bool
  | .version .. | .tagHandle .. => true
  | _ => false

end KubeCompose.Yaml
