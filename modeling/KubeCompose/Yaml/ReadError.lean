/-!
# Why a text is no document
-/

namespace KubeCompose.Yaml

/-- The causes for which a document text is refused. -/
inductive ReadError where
  | forbiddenCharacter (c : Char)
  | keyNotClosed
  | indicatorNotAllowed (c : Char)
  | unexpectedCharacter (c : Char)
  | unexpectedColon
  | badDirective
  | badAnchor
  | badTag
  | badBlockHeader
  | tabInIndentation
  | scalarNotClosed
  | badEscape
  | unexpectedToken
  | unknownTagHandle (handle : String)
  | unknownAnchor (name : String)
  | tooDeep
  | tooManyAliases
  | duplicateKey
  | integerBeyondRange (text : String)
  | wrongScalar (text : String) (expected : String)
  | severalDocuments
  deriving DecidableEq, Repr

/-- The wording of a cause. -/
def ReadError.message : ReadError → String
  | .forbiddenCharacter _ => "control characters are not allowed"
  | .keyNotClosed => "could not find expected ':'"
  | .indicatorNotAllowed c => "the indicator '" ++ String.singleton c ++ "' is not allowed here"
  | .unexpectedCharacter _ => "found character that cannot start any token"
  | .unexpectedColon => "found unexpected ':'"
  | .badDirective => "malformed directive"
  | .badAnchor => "did not find expected alphabetic or numeric character"
  | .badTag => "malformed tag"
  | .badBlockHeader => "did not find expected comment or line break"
  | .tabInIndentation => "found a tab character where an indentation space is expected"
  | .scalarNotClosed => "found unexpected end of a quoted scalar"
  | .badEscape => "found unknown escape character"
  | .unexpectedToken => "did not find expected node content"
  | .unknownTagHandle _ => "found undefined tag handle"
  | .unknownAnchor _ => "unknown anchor"
  | .tooDeep => "recursion limit exceeded"
  | .tooManyAliases => "repetition limit exceeded"
  | .duplicateKey => "duplicate entry in a mapping"
  | .integerBeyondRange text => "invalid type: integer " ++ text ++ ", expected any value"
  | .wrongScalar text expected => "invalid value: string " ++ text ++ ", expected " ++ expected
  | .severalDocuments => "more than one document"

end KubeCompose.Yaml
