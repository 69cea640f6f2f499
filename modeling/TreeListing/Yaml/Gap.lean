/-!
# White space inside a scalar

Between two stretches of a scalar stand blanks and line breaks.  Without a break they
are kept.  Otherwise blanks are dropped and lines are folded: a single line feed reads
as a space, and of several breaks the first one, if it is a line feed, is dropped.
-/

namespace TreeListing.Yaml

/-- The white space read since the last other character. -/
structure Gap where
  /-- The blanks before any break. -/
  blanks : List Char := []
  /-- What the first break reads as, which is nothing if it was escaped; absent while
  there is no break. -/
  first : Option (List Char) := none
  /-- What the later breaks read as. -/
  more : List Char := []
deriving DecidableEq, Repr, Inhabited

namespace Gap

/-- No white space. -/
def none : Gap := {}

/-- Only an escaped break. -/
def escaped : Gap := { first := some [] }

/-- Whether there is white space at all. -/
def isSome (g : Gap) : Bool :=
  !g.blanks.isEmpty || g.first.isSome

/-- Whether there is a break in it. -/
def broken (g : Gap) : Bool :=
  g.first.isSome

/-- With one blank more. -/
def blank (g : Gap) (c : Char) : Gap :=
  if g.broken then g else { g with blanks := g.blanks ++ [c] }

/-- With one break more. -/
def lineBreak (g : Gap) (c : Char) : Gap :=
  if g.broken then { g with more := g.more ++ [c] } else { first := some [c] }

/-- What the white space reads as. -/
def text (g : Gap) : List Char :=
  match g.first with
  | .none => g.blanks
  | .some ['\n'] => if g.more.isEmpty then [' '] else g.more
  | .some first => first ++ g.more

end Gap

end TreeListing.Yaml
