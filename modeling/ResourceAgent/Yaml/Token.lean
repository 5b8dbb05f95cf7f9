/-!
# Tokens of a YAML text

Besides the indicators that are written there are tokens for what indentation says: that a block
collection starts and that it ends.
-/
namespace ResourceAgent.Yaml

/-- How a scalar is written. -/
inductive Style where
  | plain
  | singleQuoted
  | doubleQuoted
  | literal
  | folded
deriving Repr, DecidableEq

/-- The tokens between the start and the end of a stream. -/
inductive Token where
  | versionDirective (major minor : Nat)
  | tagDirective (handle expansion : String)
  | documentStart
  | documentEnd
  | blockSequenceStart
  | blockMappingStart
  | blockEnd
  | flowSequenceStart
  | flowSequenceEnd
  | flowMappingStart
  | flowMappingEnd
  | blockEntry
  | flowEntry
  | key
  | value
  | alias (name : String)
  | anchor (name : String)
  | tag (handle suffix : String)
  | scalar (style : Style) (text : String)
deriving Repr, DecidableEq

/-- Why a text is not a usable YAML document. -/
inductive Error where
  | forbiddenCharacter
  | noToken
  | keyWithoutValue
  | misplacedIndicator
  | badDirective
  | badAnchor
  | badTag
  | badBlockHeader
  | badIndentation
  | badEscape
  | unexpectedColon
  | unclosedScalar
  | unexpectedToken
  | undefinedTag
  | undefinedAnchor
  | severalDocuments
  | wrongShape
deriving Repr, DecidableEq

/-- The error in words. -/
def Error.message : Error → String
  | .forbiddenCharacter => "control characters are not allowed"
  | .noToken => "found character that cannot start any token"
  | .keyWithoutValue => "could not find expected ':'"
  | .misplacedIndicator => "an indicator is not allowed in this context"
  | .badDirective => "a directive is not well-formed"
  | .badAnchor => "did not find expected alphabetic or numeric character"
  | .badTag => "a tag is not well-formed"
  | .badBlockHeader => "the header of a block scalar is not well-formed"
  | .badIndentation => "found a tab character where indentation is expected"
  | .badEscape => "found an escape sequence that stands for no character"
  | .unexpectedColon => "found unexpected ':'"
  | .unclosedScalar => "found the end of a document within a quoted scalar"
  | .unexpectedToken => "did not find expected node content"
  | .undefinedTag => "found undefined tag handle"
  | .undefinedAnchor => "unknown anchor"
  | .severalDocuments => "more than one document"
  | .wrongShape => "the document does not describe parameters"

end ResourceAgent.Yaml
