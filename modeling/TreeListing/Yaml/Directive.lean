import TreeListing.Yaml.Tag

/-!
# Directives

A directive stands before a document on a line of its own, which begins with a percent
sign.  It tells the version of the format, or what a tag handle stands for.
-/

namespace TreeListing.Yaml

/-- What stands in a directive. -/
inductive Directive where
  | version (major minor : Nat)
  | tag (handle : List Char) (text : Bytes)
deriving DecidableEq, Repr

namespace Directive

/-- The most digits that one part of a version may have. -/
def versionDigits : Nat := 9

/-- Read one part of a version. -/
def scanVersionPart (start : Mark) (i : Input) : Except Fault (Nat × Input) :=
  let digits := i.run Char.isDigit
  if digits.length > versionDigits then
    .error ((i.forward versionDigits).fault .longVersion .versionDirective start)
  else if digits.isEmpty then
    .error (i.fault .noVersionNumber .versionDirective start)
  else
    .ok (digits.foldl (fun n d => 10 * n + (d.toNat - '0'.toNat)) 0, i.forward digits.length)

/-- Read a version. -/
def scanVersion (start : Mark) (i : Input) : Except Fault (Directive × Input) := do
  let (major, i) ← scanVersionPart start (i.skip isBlank)
  if i.starts '.' then
    let (minor, i) ← scanVersionPart start (i.forward 1)
    .ok (.version major minor, i)
  else .error (i.fault .noVersionDot .versionDirective start)

/-- Read a handle and what it stands for. -/
def scanTag (start : Mark) (i : Input) : Except Fault (Directive × Input) := do
  let (handle, i) ← Tag.scanHandle true start (i.skip isBlank)
  if (i.run isBlank).isEmpty then .error (i.fault .noBlank .tagDirective start)
  else
    let (text, i) ← Tag.scanText true .tagDirectiveText start (i.skip isBlank)
    if blankOrEnd i.chars then .ok (.tag handle text, i)
    else .error (i.fault .noBlankOrBreak .tagDirective start)

/-- Read the directive that begins here, with the rest of its line. -/
def scan (i : Input) : Except Fault (Directive × Input) := do
  let start := i.mark
  let i := i.forward 1
  let name := i.run isWord
  let behind := i.forward name.length
  if name.isEmpty then .error (behind.fault .noDirectiveName .directive start)
  else if !blankOrEnd behind.chars then
    .error (behind.fault .badDirectiveName .directive start)
  else
    let (directive, behind) ←
      if name = "YAML".toList then scanVersion start behind
      else if name = "TAG".toList then scanTag start behind
      else .error (behind.fault .unknownDirective .directive start)
    let lineEnd := (behind.skip isBlank).skipComment
    if breakOrEnd lineEnd.chars then .ok (directive, lineEnd.skipBreak)
    else .error (lineEnd.fault .noCommentOrBreak .directive start)

end Directive

end TreeListing.Yaml
