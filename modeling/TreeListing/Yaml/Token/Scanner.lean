import TreeListing.Yaml.Token.Basic

/-!
# The state of scanning

Whether a token begins a mapping may show only later, at a colon after it.  Until then
the token is a *possible key*: it is kept back, and if the colon comes, the tokens that
begin a key are put in front of it.  A possible key goes stale when its line ends or
when it grows too long.  There is at most one for each flow collection that is open and
one outside of all.
-/

namespace TreeListing.Yaml

/-- A token that may turn out to be a key. -/
structure PossibleKey where
  /-- The number of tokens before it. -/
  position : Nat
  mark : Mark
  /-- Whether its line allows nothing but a key. -/
  required : Bool
deriving DecidableEq, Repr

/-- A text being cut into tokens. -/
structure Scanner where
  input : Input
  /-- The tokens that are kept back. -/
  queue : List Token := []
  /-- The number of tokens given out. -/
  given : Nat := 0
  /-- The columns of the block collections that are open, innermost first. -/
  indents : List Nat := []
  /-- Whether a key may begin here. -/
  keyAllowed : Bool := true
  /-- The possible key of the innermost collection. -/
  key : Option PossibleKey := none
  /-- The possible keys outside of each open flow collection, innermost first. -/
  outer : List (Option PossibleKey) := []
  /-- Whether the last token has been added. -/
  ended : Bool := false
deriving Repr

namespace Scanner

/-- The place where scanning goes on. -/
def mark (s : Scanner) : Mark :=
  s.input.mark

/-- Whether a flow collection is open. -/
def inFlow (s : Scanner) : Bool :=
  !s.outer.isEmpty

/-- The least column of lines that go on inside the innermost block collection. -/
def innerColumn (s : Scanner) : Nat :=
  (s.indents.head?.map (· + 1)).getD 0

/-- Add a token at the end. -/
def push (s : Scanner) (kind : TokenKind) (start stop : Mark) : Scanner :=
  { s with queue := s.queue ++ [⟨kind, start, stop⟩] }

/-- Add a token that ends where the text goes on now. -/
def pushTo (s : Scanner) (kind : TokenKind) (start : Mark) (after : Input) : Scanner :=
  { s.push kind start after.mark with input := after }

/-- Add the token that the next `n` characters are. -/
def pushNext (s : Scanner) (kind : TokenKind) (n : Nat) : Scanner :=
  s.pushTo kind s.mark (s.input.forward n)

/-- Put a token without width in front of those from a position on. -/
def insert (s : Scanner) (position : Nat) (kind : TokenKind) (mark : Mark) : Scanner :=
  { s with queue := s.queue.insertIdx (position - s.given) ⟨kind, mark, mark⟩ }

/-- The fault of a possible key that had to be one and is none. -/
def keyFault (s : Scanner) (key : PossibleKey) : Fault :=
  s.input.fault .keyWithoutColon .simpleKey key.mark

/-! ## Possible keys -/

/-- The most characters between the start of a key and its colon. -/
def keyLimit : Nat := 1024

/-- Whether a possible key can no longer be one. -/
def isStale (s : Scanner) (key : PossibleKey) : Bool :=
  key.mark.line < s.mark.line || key.mark.index + keyLimit < s.mark.index

/-- A possible key unless it is stale, which a required one must not be. -/
def freshKey (s : Scanner) : Option PossibleKey → Except Fault (Option PossibleKey)
  | none => .ok none
  | some key =>
      if !s.isStale key then .ok (some key)
      else if key.required then .error (s.keyFault key)
      else .ok none

/-- Forget the possible keys that are stale. -/
def dropStale (s : Scanner) : Except Fault Scanner := do
  let outer ← s.outer.reverse.mapM s.freshKey
  let key ← s.freshKey s.key
  .ok { s with key, outer := outer.reverse }

/-- Forget the innermost possible key, which must not be required. -/
def dropKey (s : Scanner) : Except Fault Scanner :=
  match s.key with
  | some key => if key.required then .error (s.keyFault key) else .ok { s with key := none }
  | none => .ok s

/-- The next token may be a key, if one may begin here. -/
def noteKey (s : Scanner) : Except Fault Scanner :=
  if s.keyAllowed then do
    let s ← s.dropKey
    let required := !s.inFlow && s.indents.head? == some s.mark.column
    .ok { s with key := some ⟨s.given + s.queue.length, s.mark, required⟩ }
  else .ok s

/-- Whether a key may begin after this. -/
def allowKey (s : Scanner) (keyAllowed : Bool) : Scanner :=
  { s with keyAllowed }

/-! ## Block collections -/

/-- Whether a block collection at a column would be indented further than all that are
open. -/
def isDeeper (s : Scanner) (column : Nat) : Bool :=
  match s.indents with
  | [] => true
  | indent :: _ => indent < column

/-- A block collection at a column: it begins with a token before `position` if no
collection at that column is open. -/
def openBlock (s : Scanner) (column position : Nat) (kind : TokenKind) (mark : Mark) :
    Scanner :=
  if !s.inFlow && s.isDeeper column then
    { s.insert position kind mark with indents := column :: s.indents }
  else s

/-- A block collection that begins here. -/
def openBlockHere (s : Scanner) (kind : TokenKind) : Scanner :=
  s.openBlock s.mark.column (s.given + s.queue.length) kind s.mark

/-- End the block collections that a condition on their column says are over. -/
def closeBlocks (s : Scanner) (ended : Nat → Bool) : Scanner :=
  if s.inFlow then s
  else
    let ends := (s.indents.takeWhile ended).map fun _ => (⟨.blockEnd, s.mark, s.mark⟩ : Token)
    { s with queue := s.queue ++ ends, indents := s.indents.dropWhile ended }

/-- End all block collections and forget the possible key; none may follow. -/
def closeAll (s : Scanner) : Except Fault Scanner := do
  let s ← (s.closeBlocks fun _ => true).dropKey
  .ok (s.allowKey false)

/-! ## Tokens that can be given out -/

/-- The number of tokens before the first one that may still be a key. -/
def settled (s : Scanner) : Nat :=
  ((s.key :: s.outer).filterMap (·.map PossibleKey.position)).foldl min
    (s.given + s.queue.length)

/-- Give out the tokens that no possible key holds back. -/
def release (s : Scanner) : List Token × Scanner :=
  let n := s.settled - s.given
  (s.queue.take n, { s with queue := s.queue.drop n, given := s.given + n })

end Scanner

end TreeListing.Yaml
