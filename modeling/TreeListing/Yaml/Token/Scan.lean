import TreeListing.Yaml.Scalar.Block
import TreeListing.Yaml.Scalar.Plain
import TreeListing.Yaml.Scalar.Quoted
import TreeListing.Yaml.Token.Scanner

/-!
# Cutting a text into tokens

One step skips white space and comments, ends the block collections that the next
token is not indented enough for, and adds the tokens that begin there.  `scan` runs
the steps and gives the tokens of a text in order, up to the first fault.
-/

namespace TreeListing.Yaml

namespace Scanner

/-! ## Between tokens -/

/-- Skip spaces, line breaks and comments, and tabs where they cannot be taken for
indentation.  Outside of flow collections a key may begin on each new line. -/
def skipGap (flow : Bool) : Bool → List Char → Mark → Bool → Input × Bool
  | _, [], m, keyAllowed => (⟨[], m⟩, keyAllowed)
  | _, '\r' :: '\n' :: rest, m, keyAllowed =>
      skipGap flow false rest (m.nextLine 2) (keyAllowed || !flow)
  | inComment, c :: rest, m, keyAllowed =>
      if isBreak c then skipGap flow false rest (m.nextLine 1) (keyAllowed || !flow)
      else if inComment || c == '#' then skipGap flow true rest (m.forward 1) keyAllowed
      else if c == ' ' || c == '\t' && (flow || !keyAllowed) then
        skipGap flow false rest (m.forward 1) keyAllowed
      else (⟨c :: rest, m⟩, keyAllowed)

/-- The character that may stand at the start of a text and marks its encoding.  It is
skipped there and counted. -/
def byteOrderMark : Char := '\ufeff'

/-- Go on to the next token. -/
def toNextToken (s : Scanner) : Scanner :=
  let i :=
    if s.mark.index == 0 && s.input.starts byteOrderMark then s.input.forward 1 else s.input
  let (input, keyAllowed) := skipGap s.inFlow false i.chars i.mark s.keyAllowed
  { s with input, keyAllowed }

/-! ## Tokens by their first character -/

/-- The end of the text, which ends the line too. -/
def addEnd (s : Scanner) : Except Fault Scanner := do
  let m :=
    if s.mark.column = 0 then s.mark
    else { s.mark with line := s.mark.line + 1, column := 0 }
  let s ← { s with input := ⟨[], m⟩ }.closeAll
  .ok { s with ended := true }

/-- A directive. -/
def addDirective (s : Scanner) : Except Fault Scanner := do
  let s ← s.closeAll
  let (directive, after) ← Directive.scan s.input
  .ok (s.pushTo (.directive directive) s.mark after)

/-- A document marker. -/
def addDocumentMarker (s : Scanner) (kind : TokenKind) : Except Fault Scanner := do
  let s ← s.closeAll
  .ok (s.pushNext kind 3)

/-- The start of a flow collection. -/
def addFlowStart (s : Scanner) (kind : TokenKind) : Except Fault Scanner := do
  let s ← s.noteKey
  let s := { s with key := none, outer := s.key :: s.outer }
  .ok ((s.allowKey true).pushNext kind 1)

/-- The end of a flow collection. -/
def addFlowEnd (s : Scanner) (kind : TokenKind) : Except Fault Scanner := do
  let s ← s.dropKey
  let s := match s.outer with
    | key :: outer => { s with key, outer }
    | [] => s
  .ok ((s.allowKey false).pushNext kind 1)

/-- A comma between the entries of a flow collection. -/
def addFlowEntry (s : Scanner) : Except Fault Scanner := do
  let s ← s.dropKey
  .ok ((s.allowKey true).pushNext .flowEntry 1)

/-- The fault of something that may only stand where a key may. -/
def placeFault (s : Scanner) (what : Problem) : Fault :=
  .problem what s.mark none

/-- A hyphen before an entry of a block sequence. -/
def addBlockEntry (s : Scanner) : Except Fault Scanner := do
  if !s.inFlow && !s.keyAllowed then .error (s.placeFault .misplacedSequenceEntry)
  else
    let s ← (s.openBlockHere .blockSequenceStart).dropKey
    .ok ((s.allowKey true).pushNext .blockEntry 1)

/-- A question mark before a key. -/
def addKey (s : Scanner) : Except Fault Scanner := do
  if !s.inFlow && !s.keyAllowed then .error (s.placeFault .misplacedKey)
  else
    let s ← (s.openBlockHere .blockMappingStart).dropKey
    .ok ((s.allowKey !s.inFlow).pushNext .key 1)

/-- A colon before a value.  If there is a possible key, it is one. -/
def addValue (s : Scanner) : Except Fault Scanner :=
  match s.key with
  | some key =>
      let s := s.insert key.position .key key.mark
      let s := s.openBlock key.mark.column key.position .blockMappingStart key.mark
      .ok (({ s with key := none }.allowKey false).pushNext .value 1)
  | none =>
      if !s.inFlow && !s.keyAllowed then .error (s.placeFault .misplacedValue)
      else
        let s := s.openBlockHere .blockMappingStart
        .ok ((s.allowKey !s.inFlow).pushNext .value 1)

/-- An alias. -/
def addReference (s : Scanner) : Except Fault Scanner := do
  let s ← s.noteKey
  let (name, after) ← scanName .reference s.input
  .ok ((s.allowKey false).pushTo (.reference name) s.mark after)

/-- An anchor. -/
def addAnchor (s : Scanner) : Except Fault Scanner := do
  let s ← s.noteKey
  let (name, after) ← scanName .anchor s.input
  .ok ((s.allowKey false).pushTo (.anchor name) s.mark after)

/-- A tag. -/
def addTag (s : Scanner) : Except Fault Scanner := do
  let s ← s.noteKey
  let (tag, after) ← Tag.scan s.inFlow s.input
  .ok ((s.allowKey false).pushTo (.tag tag) s.mark after)

/-- A block scalar. -/
def addBlockScalar (s : Scanner) (fold : Bool) : Except Fault Scanner := do
  let s ← s.dropKey
  let r ← Block.scan fold s.indents.head? s.input
  .ok ((s.allowKey true).pushTo (.scalar r.text false) s.mark r.after)

/-- A quoted scalar. -/
def addQuoted (s : Scanner) (quote : Char) : Except Fault Scanner := do
  let s ← s.noteKey
  let r ← Quoted.scan quote s.input
  .ok ((s.allowKey false).pushTo (.scalar r.text false) s.mark r.after)

/-- A plain scalar.  A key may begin after it if a line break has been read. -/
def addPlain (s : Scanner) : Except Fault Scanner := do
  let s ← s.noteKey
  let r ← Plain.scan s.inFlow s.innerColumn s.input
  .ok ((s.allowKey r.broken).pushTo (.scalar r.text true) s.mark r.after)

/-- The characters that begin no plain scalar, at least not every one. -/
def isIndicator (c : Char) : Bool :=
  "-?:,[]\x7b\x7d#&*!|>\x27\"%@\x60".toList.contains c

/-- Whether a plain scalar begins with this character before these. -/
def beginsPlain (flow : Bool) (c : Char) (rest : List Char) : Bool :=
  !isBlank c && !isIndicator c
    || c == '-' && !(rest.head?.any isBlank)
    || !flow && (c == '?' || c == ':') && !blankOrEnd rest

/-- Add the token that begins here, with those that it brings about. -/
def addToken (s : Scanner) : Except Fault Scanner :=
  match s.input.chars with
  | [] => s.addEnd
  | c :: rest =>
      let lineStart := s.mark.column == 0
      let alone := s.inFlow || blankOrEnd rest
      if lineStart && c == '%' then s.addDirective
      else if lineStart && marker '-' (c :: rest) then s.addDocumentMarker .documentStart
      else if lineStart && marker '.' (c :: rest) then s.addDocumentMarker .documentEnd
      else if c == '[' then s.addFlowStart .flowSequenceStart
      else if c == '\x7b' then s.addFlowStart .flowMappingStart
      else if c == ']' then s.addFlowEnd .flowSequenceEnd
      else if c == '\x7d' then s.addFlowEnd .flowMappingEnd
      else if c == ',' then s.addFlowEntry
      else if c == '-' && blankOrEnd rest then s.addBlockEntry
      else if c == '?' && alone then s.addKey
      else if c == ':' && alone then s.addValue
      else if c == '*' then s.addReference
      else if c == '&' then s.addAnchor
      else if c == '!' then s.addTag
      else if c == '|' && !s.inFlow then s.addBlockScalar false
      else if c == '>' && !s.inFlow then s.addBlockScalar true
      else if c == '\'' || c == '"' then s.addQuoted c
      else if beginsPlain s.inFlow c rest then s.addPlain
      else .error (s.input.fault .strayCharacter .nextToken s.mark)

end Scanner

/-! ## Texts that are cut off -/

/-- The place where a text is cut off before characters that no text may hold. -/
structure Cut where
  /-- The number of characters before it. -/
  index : Nat
  /-- The fault to report once the text before has been used up. -/
  fault : Fault
deriving DecidableEq, Repr

namespace Cut

/-- What a fault at the place where the text was cut off really is. -/
def explain (cut : Option Cut) (fault : Fault) : Fault :=
  match cut, fault with
  | some c, .problem _ m _ => if c.index ≤ m.index then c.fault else fault
  | _, _ => fault

/-- Fail if the text was cut off and fewer than `n` characters of it are left. -/
def demand (cut : Option Cut) (n : Nat) (i : Input) : Except Fault Unit :=
  match cut with
  | some c => if i.mark.index + n ≤ c.index then .ok () else .error c.fault
  | none => .ok ()

end Cut

/-! ## Steps -/

namespace Scanner

/-- The number of characters that are looked at to tell what token begins. -/
def lookahead : Nat := 4

/-- The number of characters behind a token that are looked at to tell that it ends.
Only a closing quote ends a token by itself. -/
def seenBehind (i : Input) : Nat :=
  if i.starts '\'' || i.starts '"' then 0 else 1

/-- One step: add the next token. -/
def step (cut : Option Cut) (s : Scanner) : Except Fault Scanner := do
  Cut.demand cut 1 s.input
  let s ← s.toNextToken.dropStale
  Cut.demand cut lookahead s.input
  let behind := seenBehind s.input
  let s ← (s.closeBlocks (s.mark.column < ·)).addToken
  Cut.demand cut behind s.input
  s.dropStale

/-- The tokens that at most `n` steps add, and the end or the fault after them. -/
def run (cut : Option Cut) : Nat → Scanner → Tokens
  | 0, s => .ended s.mark
  | n + 1, s =>
      match s.step cut with
      | .error fault => .failed (Cut.explain cut fault)
      | .ok s =>
          let (out, s) := s.release
          .prepend out (if s.ended then .ended s.mark else run cut n s)

end Scanner

/-! ## Characters that are not allowed -/

/-- The most bytes whose characters are checked at once. -/
def checkedBytes : Nat := 16384

/-- A text whose characters are being checked, a run of bytes at a time. -/
structure Checking where
  /-- The number of characters checked, and of those before the current run. -/
  index : Nat := 0
  runIndex : Nat := 0
  /-- The byte offset of the next character, and of the end of the current run. -/
  offset : Nat := 0
  runEnd : Nat := checkedBytes

/-- The first character that is not allowed, and where the run that it is in begins. -/
def Checking.cut? (k : Checking) : List Char → Option Cut
  | [] => none
  | c :: rest =>
      let behind := k.offset + c.utf8Size
      let k := if behind ≤ k.runEnd then k
        else { k with runIndex := k.index, runEnd := k.offset + checkedBytes }
      if isAllowed c then
        Checking.cut? { k with index := k.index + 1, offset := behind } rest
      else some ⟨k.runIndex, .forbidden k.offset⟩

/-- The tokens of a text.  Each step uses up a character at least. -/
def scan (text : String) : Tokens :=
  let chars := text.toList
  let cut := Checking.cut? {} chars
  let chars := match cut with
    | some c => chars.take c.index
    | none => chars
  Scanner.run cut (chars.length + 2) { input := ⟨chars, {}⟩ }

end TreeListing.Yaml
