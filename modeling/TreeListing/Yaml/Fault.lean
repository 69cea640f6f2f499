import TreeListing.Yaml.Mark

/-!
# What is wrong with a YAML text

A fault is a problem at a mark, met while something larger was being read that began
at a mark of its own.  A forbidden character is reported by its byte offset instead,
since characters are checked before they are counted.
-/

namespace TreeListing.Yaml

/-- What is wrong. -/
inductive Problem where
  | keyWithoutColon
  | misplacedSequenceEntry
  | misplacedKey
  | misplacedValue
  | strayCharacter
  | unknownDirective
  | noDirectiveName
  | badDirectiveName
  | noCommentOrBreak
  | noVersionDot
  | longVersion
  | noVersionNumber
  | noBlank
  | noBlankOrBreak
  | noExclamationMark
  | noTagEnd
  | noTagText
  | noEscapedOctet
  | badFirstOctet
  | badNextOctet
  | noAnchorName
  | zeroIndentation
  | tabAsIndentation
  | documentMarker
  | endOfText
  | unknownEscape
  | noHexDigit
  | badCodePoint
  | colonInFlow
  | tabBelowIndentation
  | noDocumentStart
  | noNode
  | unknownTagHandle
  | noKey
  | noEntry
  | noFlowSequenceEnd
  | noFlowMappingEnd
  | secondVersion
  | wrongVersion
  | secondTagHandle
deriving DecidableEq, Repr

/-- The written form of a problem. -/
def Problem.message : Problem → String
  | keyWithoutColon => "could not find expected ':'"
  | misplacedSequenceEntry => "block sequence entries are not allowed in this context"
  | misplacedKey => "mapping keys are not allowed in this context"
  | misplacedValue => "mapping values are not allowed in this context"
  | strayCharacter => "found character that cannot start any token"
  | unknownDirective => "found unknown directive name"
  | noDirectiveName => "could not find expected directive name"
  | badDirectiveName => "found unexpected non-alphabetical character"
  | noCommentOrBreak => "did not find expected comment or line break"
  | noVersionDot => "did not find expected digit or '.' character"
  | longVersion => "found extremely long version number"
  | noVersionNumber => "did not find expected version number"
  | noBlank => "did not find expected whitespace"
  | noBlankOrBreak => "did not find expected whitespace or line break"
  | noExclamationMark => "did not find expected '!'"
  | noTagEnd => "did not find the expected '>'"
  | noTagText => "did not find expected tag URI"
  | noEscapedOctet => "did not find URI escaped octet"
  | badFirstOctet => "found an incorrect leading UTF-8 octet"
  | badNextOctet => "found an incorrect trailing UTF-8 octet"
  | noAnchorName => "did not find expected alphabetic or numeric character"
  | zeroIndentation => "found an indentation indicator equal to 0"
  | tabAsIndentation => "found a tab character where an indentation space is expected"
  | documentMarker => "found unexpected document indicator"
  | endOfText => "found unexpected end of stream"
  | unknownEscape => "found unknown escape character"
  | noHexDigit => "did not find expected hexadecimal number"
  | badCodePoint => "found invalid Unicode character escape code"
  | colonInFlow => "found unexpected ':'"
  | tabBelowIndentation => "found a tab character that violates indentation"
  | noDocumentStart => "did not find expected <document start>"
  | noNode => "did not find expected node content"
  | unknownTagHandle => "found undefined tag handle"
  | noKey => "did not find expected key"
  | noEntry => "did not find expected '-' indicator"
  | noFlowSequenceEnd => "did not find expected ',' or ']'"
  | noFlowMappingEnd => "did not find expected ',' or '\x7d'"
  | secondVersion => "found duplicate %YAML directive"
  | wrongVersion => "found incompatible YAML document"
  | secondTagHandle => "found duplicate %TAG directive"

/-- What was being read. -/
inductive Context where
  | simpleKey
  | nextToken
  | directive
  | versionDirective
  | tagDirective
  | tagDirectiveHandle
  | tagDirectiveHandleEnd
  | tagDirectiveText
  | tag
  | tagText
  | anchor
  | reference
  | blockScalar
  | quotedScalar
  | quotedEscape
  | plainScalar
  | node
  | blockNode
  | flowNode
  | blockSequence
  | blockMapping
  | flowSequence
  | flowMapping
deriving DecidableEq, Repr

/-- The written form of a context. -/
def Context.message : Context → String
  | simpleKey => "while scanning a simple key"
  | nextToken => "while scanning for the next token"
  | directive => "while scanning a directive"
  | versionDirective => "while scanning a %YAML directive"
  | tagDirective => "while scanning a %TAG directive"
  | tagDirectiveHandle => "while scanning a tag directive"
  | tagDirectiveHandleEnd => "while parsing a tag directive"
  | tagDirectiveText => "while parsing a %TAG directive"
  | tag => "while scanning a tag"
  | tagText => "while parsing a tag"
  | anchor => "while scanning an anchor"
  | reference => "while scanning an alias"
  | blockScalar => "while scanning a block scalar"
  | quotedScalar => "while scanning a quoted scalar"
  | quotedEscape => "while parsing a quoted scalar"
  | plainScalar => "while scanning a plain scalar"
  | node => "while parsing a node"
  | blockNode => "while parsing a block node"
  | flowNode => "while parsing a flow node"
  | blockSequence => "while parsing a block collection"
  | blockMapping => "while parsing a block mapping"
  | flowSequence => "while parsing a flow sequence"
  | flowMapping => "while parsing a flow mapping"

/-- A reason why a text is not YAML. -/
inductive Fault where
  /-- A character that no YAML text holds, at this byte offset. -/
  | forbidden (offset : Nat)
  /-- A problem at a mark, and what was being read from where. -/
  | problem (what : Problem) (mark : Mark) (context : Option (Context × Mark))
  /-- An alias for which there is no anchor before it. -/
  | unknownAnchor (mark : Mark)
deriving DecidableEq, Repr

/-- The end of a message that tells what was being read.  Its mark is left out at the
start of the text and where it repeats the mark of the problem. -/
def Fault.contextText (mark : Mark) : Option (Context × Mark) → String
  | none => ""
  | some (context, start) =>
      let same := start.line == mark.line && start.column == mark.column
      ", " ++ context.message ++ (if same then "" else start.suffix)

/-- The written form of a fault. -/
def Fault.message : Fault → String
  | forbidden offset =>
      "control characters are not allowed"
        ++ (if offset = 0 then "" else " at position " ++ toString offset)
  | problem what mark context => what.message ++ mark.suffix ++ contextText mark context
  | unknownAnchor mark => "unknown anchor" ++ mark.suffix

end TreeListing.Yaml
