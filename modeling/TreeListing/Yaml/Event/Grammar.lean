import TreeListing.Yaml.Event.Basic
import TreeListing.Yaml.Token.Scan

/-!
# From tokens to events

What may come next is kept on a stack: each entry reads some tokens, gives one event
and says what has to come before the rest of the stack.  A node that is left out gives
an empty scalar.
-/

namespace TreeListing.Yaml

/-- What is expected.  Collections keep the mark of the token that began them. -/
inductive Expected where
  /-- A document; a first one need not be announced. -/
  | document (first : Bool)
  | documentContent
  | documentEnd
  | blockNode
  | blockSequenceEntry (start : Mark)
  | indentlessEntry
  | blockMappingKey (start : Mark)
  | blockMappingValue
  | flowSequenceEntry (start : Mark) (first : Bool)
  | flowPairKey
  | flowPairValue
  | flowPairEnd
  | flowMappingKey (start : Mark) (first : Bool)
  /-- A value in a flow mapping; `bare` after a key without a question mark or colon. -/
  | flowMappingValue (bare : Bool)
deriving DecidableEq, Repr

/-- Tokens being read. -/
structure Parser where
  tokens : Tokens
  expected : List Expected
  /-- What the tag handles stand for. -/
  handles : List (List Char × Bytes) := []
deriving Repr

namespace Parser

/-- The next token; at the end of the text, its end. -/
def peek (p : Parser) : Except Fault Token :=
  match p.tokens with
  | .next t _ => .ok t
  | .ended m => .ok ⟨.finish, m, m⟩
  | .failed fault => .error fault

/-- Go on past the next token. -/
def skip (p : Parser) : Parser :=
  match p.tokens with
  | .next _ rest => { p with tokens := rest }
  | _ => p

/-- Expect something before the rest. -/
def expect (p : Parser) (first : List Expected) : Parser :=
  { p with expected := first ++ p.expected }

/-- What a step gives. -/
abbrev Step := Except Fault (Event × Parser)

/-- An empty scalar, for a node that is left out. -/
def omitted (p : Parser) (m : Mark) : Step :=
  .ok (.empty m {}, p)

/-! ## Nodes -/

/-- A node without its properties, which began at `start` if there are any. -/
def content (block indentless : Bool) (given : Option Mark) (properties : Properties)
    (p : Parser) : Step := do
  let t ← p.peek
  let start := given.getD t.start
  let collection (kind : EventKind) (next : Expected) : Step :=
    .ok (⟨kind, start⟩, p.skip.expect [next])
  match t.kind with
  | .scalar text plain => .ok (⟨.scalar properties text plain, start⟩, p.skip)
  | .flowSequenceStart => collection (.sequenceStart properties) (.flowSequenceEntry t.start true)
  | .flowMappingStart => collection (.mappingStart properties) (.flowMappingKey t.start true)
  | kind =>
      if indentless && kind = .blockEntry then
        .ok (⟨.sequenceStart properties, start⟩, p.expect [.indentlessEntry])
      else if block && kind = .blockSequenceStart then
        collection (.sequenceStart properties) (.blockSequenceEntry t.start)
      else if block && kind = .blockMappingStart then
        collection (.mappingStart properties) (.blockMappingKey t.start)
      else if given.isSome then .ok (.empty start properties, p)
      else
        .error (.problem .noNode t.start
          (some (if block then .blockNode else .flowNode, start)))

/-- A node: an alias, or properties in either order and what has them. -/
def node (block indentless : Bool) (p : Parser) : Step := do
  let t ← p.peek
  match t.kind with
  | .reference name => .ok (⟨.reference name, t.start⟩, p.skip)
  | .anchor name =>
      let next ← p.skip.peek
      match next.kind with
      | .tag tag => tagged p.skip.skip t.start (some name) tag next.start
      | _ => content block indentless (some t.start) { anchor := name } p.skip
  | .tag tag =>
      let next ← p.skip.peek
      match next.kind with
      | .anchor name => do
          let _ ← p.skip.skip.peek
          tagged p.skip.skip t.start (some name) tag t.start
      | _ => tagged p.skip t.start none tag t.start
  | _ => content block indentless none {} p
where
  /-- What has a tag. -/
  tagged (p : Parser) (start : Mark) (anchor : Option (List Char)) (tag : Tag)
      (tagMark : Mark) : Step := do
    let _ ← p.peek
    match tag.resolve? p.handles with
    | some text => content block indentless (some start) ⟨anchor, some text⟩ p
    | none => .error (.problem .unknownTagHandle tagMark (some (.node, start)))

/-- A node before what is expected after it, unless the next token is one that cannot
begin it; then it is left out at `m`, or else where that token begins. -/
def nodeUnless (p : Parser) (absent : TokenKind → Bool) (block indentless : Bool)
    (after : Expected) (m : Option Mark) : Step := do
  let t ← p.peek
  let p := p.expect [after]
  if absent t.kind then p.omitted (m.getD t.start) else p.node block indentless

/-! ## Documents -/

/-- Go on past document end markers. -/
def afterMarkers : Tokens → Tokens
  | .next t rest => if t.kind = .documentEnd then afterMarkers rest else .next t rest
  | tokens => tokens

/-- The handles that the directives before a document declare, and what comes after. -/
def directives : Bool → List (List Char × Bytes) → Tokens →
    Except Fault (List (List Char × Bytes) × Tokens)
  | versioned, handles, .next t rest =>
      match t.kind with
      | .directive (.version major minor) =>
          if versioned then .error (.problem .secondVersion t.start none)
          else if major ≠ 1 || (minor ≠ 1 && minor ≠ 2) then
            .error (.problem .wrongVersion t.start none)
          else directives true handles rest
      | .directive (.tag handle text) =>
          if (handles.lookup handle).isSome then
            .error (.problem .secondTagHandle t.start none)
          else directives versioned (handles ++ [(handle, text)]) rest
      | _ => .ok (handles, .next t rest)
  | _, handles, tokens => .ok (handles, tokens)

/-- Whether a token can stand only between documents. -/
def isOutside : TokenKind → Bool
  | .directive _ | .documentStart | .documentEnd | .finish => true
  | _ => false

/-- A document, or nothing at the end of the text. -/
def document (first : Bool) (p : Parser) : Except Fault (Option (Event × Parser)) := do
  let p := if first then p else { p with tokens := afterMarkers p.tokens }
  let t ← p.peek
  if t.kind = .finish then .ok none
  else if first && (!isOutside t.kind || t.kind = .documentEnd) then
    let p := { p with handles := Tag.commonHandles }
    .ok (some (⟨.documentStart, t.start⟩,
      p.expect [.blockNode, .documentEnd, .document false]))
  else
    let (handles, tokens) ← directives false [] p.tokens
    let p := { p with tokens, handles := handles ++ Tag.commonHandles }
    let marker ← p.peek
    if marker.kind = .documentStart then
      .ok (some (⟨.documentStart, t.start⟩,
        p.skip.expect [.documentContent, .documentEnd, .document false]))
    else .error (.problem .noDocumentStart marker.start none)

/-- The end of a document, with its marker if there is one. -/
def documentEnd (p : Parser) : Step := do
  let t ← p.peek
  .ok (⟨.documentEnd, t.start⟩, if t.kind = .documentEnd then p.skip else p)

/-! ## Block collections -/

/-- An entry of a block sequence, or its end. -/
def blockSequenceEntry (start : Mark) (p : Parser) : Step := do
  let t ← p.peek
  match t.kind with
  | .blockEntry =>
      p.skip.nodeUnless (fun k => k = .blockEntry || k = .blockEnd) true false
        (.blockSequenceEntry start) t.stop
  | .blockEnd => .ok (⟨.sequenceEnd, t.start⟩, p.skip)
  | _ => .error (.problem .noEntry t.start (some (.blockSequence, start)))

/-- An entry of a block sequence that is indented no further than the key before it,
or its end. -/
def indentlessEntry (p : Parser) : Step := do
  let t ← p.peek
  match t.kind with
  | .blockEntry =>
      p.skip.nodeUnless
        (fun k => k = .blockEntry || k = .key || k = .value || k = .blockEnd) true false
        .indentlessEntry t.stop
  | _ => .ok (⟨.sequenceEnd, t.start⟩, p)

/-- Whether no node of a block mapping can begin with a token. -/
def endsBlockNode (k : TokenKind) : Bool :=
  k = .key || k = .value || k = .blockEnd

/-- A key of a block mapping, or the mapping's end. -/
def blockMappingKey (start : Mark) (p : Parser) : Step := do
  let t ← p.peek
  match t.kind with
  | .key =>
      (p.skip.expect [.blockMappingKey start]).nodeUnless endsBlockNode true true
        .blockMappingValue t.stop
  | .blockEnd => .ok (⟨.mappingEnd, t.start⟩, p.skip)
  | _ => .error (.problem .noKey t.start (some (.blockMapping, start)))

/-- A value of a block mapping. -/
def blockMappingValue (p : Parser) : Step := do
  let t ← p.peek
  match t.kind with
  | .value =>
      let next ← p.skip.peek
      if endsBlockNode next.kind then p.skip.omitted t.stop else p.skip.node true true
  | _ => p.omitted t.start

/-! ## Flow collections -/

/-- An entry of a flow sequence, or its end.  A key begins a mapping of one pair. -/
def flowSequenceEntry (start : Mark) (first : Bool) (p : Parser) : Step := do
  let t ← p.peek
  if t.kind = .flowSequenceEnd then .ok (⟨.sequenceEnd, t.start⟩, p.skip)
  else if !first && t.kind ≠ .flowEntry then
    .error (.problem .noFlowSequenceEnd t.start (some (.flowSequence, start)))
  else
    let p := if first then p else p.skip
    let t ← p.peek
    let after := Expected.flowSequenceEntry start false
    match t.kind with
    | .key => .ok (⟨.mappingStart {}, t.start⟩, p.skip.expect [.flowPairKey, after])
    | .flowSequenceEnd => .ok (⟨.sequenceEnd, t.start⟩, p.skip)
    | _ => (p.expect [after]).node false false

/-- The key of a pair in a flow sequence.  If it is left out, so is the value. -/
def flowPairKey (p : Parser) : Step := do
  let t ← p.peek
  let p := p.expect [.flowPairValue]
  if t.kind = .value || t.kind = .flowEntry || t.kind = .flowSequenceEnd then
    p.skip.omitted t.stop
  else p.node false false

/-- The value of a pair in a flow sequence. -/
def flowPairValue (p : Parser) : Step := do
  let t ← p.peek
  if t.kind = .value then
    p.skip.nodeUnless (fun k => k = .flowEntry || k = .flowSequenceEnd) false false
      .flowPairEnd none
  else (p.expect [.flowPairEnd]).omitted t.start

/-- The end of a pair in a flow sequence. -/
def flowPairEnd (p : Parser) : Step := do
  let t ← p.peek
  .ok (⟨.mappingEnd, t.start⟩, p)

/-- A key of a flow mapping, or the mapping's end. -/
def flowMappingKey (start : Mark) (first : Bool) (p : Parser) : Step := do
  let t ← p.peek
  if t.kind = .flowMappingEnd then .ok (⟨.mappingEnd, t.start⟩, p.skip)
  else if !first && t.kind ≠ .flowEntry then
    .error (.problem .noFlowMappingEnd t.start (some (.flowMapping, start)))
  else
    let p := if first then p else p.skip
    let t ← p.peek
    let after := Expected.flowMappingKey start false
    match t.kind with
    | .key =>
        (p.skip.expect [after]).nodeUnless
          (fun k => k = .value || k = .flowEntry || k = .flowMappingEnd) false false
          (.flowMappingValue false) none
    | .flowMappingEnd => .ok (⟨.mappingEnd, t.start⟩, p.skip)
    | _ => (p.expect [.flowMappingValue true, after]).node false false

/-- A value of a flow mapping. -/
def flowMappingValue (bare : Bool) (p : Parser) : Step := do
  let t ← p.peek
  if !bare && t.kind = .value then
    let next ← p.skip.peek
    if next.kind = .flowEntry || next.kind = .flowMappingEnd then p.skip.omitted next.start
    else p.skip.node false false
  else p.omitted t.start

/-! ## All events -/

/-- One step: an event, or nothing at the end of the text. -/
def step (p : Parser) : Except Fault (Option (Event × Parser)) :=
  match p.expected with
  | [] => .ok none
  | e :: rest =>
      let p := { p with expected := rest }
      match e with
      | .document first => p.document first
      | .documentContent => some <$> (do
          let t ← p.peek
          if isOutside t.kind then p.omitted t.start else p.node true false)
      | .documentEnd => some <$> p.documentEnd
      | .blockNode => some <$> p.node true false
      | .blockSequenceEntry start => some <$> p.blockSequenceEntry start
      | .indentlessEntry => some <$> p.indentlessEntry
      | .blockMappingKey start => some <$> p.blockMappingKey start
      | .blockMappingValue => some <$> p.blockMappingValue
      | .flowSequenceEntry start first => some <$> p.flowSequenceEntry start first
      | .flowPairKey => some <$> p.flowPairKey
      | .flowPairValue => some <$> p.flowPairValue
      | .flowPairEnd => some <$> p.flowPairEnd
      | .flowMappingKey start first => some <$> p.flowMappingKey start first
      | .flowMappingValue bare => some <$> p.flowMappingValue bare

/-- The events that at most `n` steps give. -/
def run : Nat → Parser → Events
  | 0, _ => .ended
  | n + 1, p =>
      match p.step with
      | .error fault => .failed fault
      | .ok none => .ended
      | .ok (some (event, p)) => .next event (run n p)

end Parser

/-- The events of a text.  No token brings about more than four of them. -/
def events (tokens : Tokens) : Events :=
  Parser.run (4 * tokens.length + 4) { tokens, expected := [.document true] }

end TreeListing.Yaml
