import TreeListing.Log.Event

/-!
# Choosing log events

A filter is a list of directives separated by commas.  A directive is a level, a target,
or both with an equals sign between, and in brackets it may name a span and fields.
Of the directives whose target begins an event's target and whose fields the event has,
the most specific one decides: the event is shown if its level is within the
directive's.  Nothing happens inside of spans here, so directives that ask for one, or
for the value of a field, show nothing.
-/

namespace TreeListing.Log

/-- A part of a filter. -/
structure Directive where
  target : Option String := none
  /-- The name of a span. -/
  span : Option String := none
  /-- Names of fields, and whether a value is asked for too. -/
  fields : List (String × Bool) := []
  /-- The number of levels that are shown. -/
  levels : Nat := Level.trace.rank
deriving DecidableEq, Repr

namespace Directive

/-- The number of levels that a text stands for. -/
def levels? (s : List Char) : Option Nat :=
  let digits := match s with
    | '+' :: rest => rest
    | _ => s
  if !digits.isEmpty && digits.all Char.isDigit then
    (String.ofList digits).toNat?.filter (· ≤ 5)
  else
    match String.ofList (s.map Char.toLower) with
    | "" => some 1
    | "off" => some 0
    | "error" => some 1
    | "warn" => some 2
    | "info" => some 3
    | "debug" => some 4
    | "trace" => some 5
    | _ => none

/-- A level or else a target that stands alone. -/
def alone (s : List Char) : Directive :=
  match levels? s with
  | some levels => { levels }
  | none => { target := String.ofList s }

/-- With the level after an equals sign, which may be left out. -/
def withLevel (d : Directive) (s : List Char) : Option Directive :=
  if s.isEmpty then some d else (levels? s).map fun levels => { d with levels }

/-- What may follow a closing bracket: nothing, or a level. -/
def afterBrackets (d : Directive) : List Char → Option Directive
  | [] => some d
  | '=' :: level => d.withLevel level
  | _ => none

/-- A field in braces, which must not be empty. -/
def field? (s : List Char) : Option (String × Bool) :=
  if s.isEmpty then none
  else some (String.ofList (s.takeWhile (· != '=')), s.contains '=')

/-- What stands after an opening bracket: a span, fields in braces, or both. -/
def inBrackets (d : Directive) (s : List Char) : Option Directive :=
  let span := s.takeWhile fun c => c != ']' && c != '\x7b'
  match s.drop span.length with
  | ']' :: rest => { d with span := String.ofList span }.afterBrackets rest
  | _ :: rest =>
      let field := rest.takeWhile (· != '\x7d')
      match rest.drop field.length, field? field with
      | _ :: ']' :: rest, some f =>
          { d with
            span := if span.isEmpty then none else some (String.ofList span)
            fields := [f] }.afterBrackets rest
      | _, _ => none
  | [] => none

/-- Whether a directive may begin with a character. -/
def begins (c : Char) : Bool :=
  c.isAlphanum || c == '-' || c == ':' || c == '_' || c == '['

/-- Read a directive. -/
def ofChars? (s : List Char) : Option Directive :=
  match s with
  | [] => none
  | c :: _ =>
      if !begins c then none
      else
        let head := s.takeWhile fun c => c != '=' && c != '['
        match s.drop head.length with
        | [] => some (alone s)
        | '=' :: level => { target := String.ofList head : Directive }.withLevel level
        | _ :: rest =>
            { target := if head.isEmpty then none else some (String.ofList head) : Directive }
              |>.inBrackets rest

/-- Whether a directive speaks of events outside of spans. -/
def isStatic (d : Directive) : Bool :=
  d.span.isNone && !d.fields.any Prod.snd

/-- Whether a directive speaks of an event. -/
def covers (d : Directive) (e : Event) : Bool :=
  (d.target.all fun (t : String) => t.toList.isPrefixOf e.target.toList)
    && d.fields.all fun (f : String × Bool) =>
      f.1 == "message" || e.fields.any fun (g : String × String) => g.1 == f.1

/-- How specific a directive is: first by its target, then by its fields. -/
def weight (d : Directive) : Nat × Nat :=
  ((d.target.map fun (t : String) => t.utf8ByteSize + 1).getD 0, d.fields.length)

/-- Whether one directive is more specific than another. -/
def outweighs (d e : Directive) : Bool :=
  e.weight.1 < d.weight.1 || e.weight.1 == d.weight.1 && e.weight.2 < d.weight.2

end Directive

/-- A list of directives. -/
abbrev Filter := List Directive

namespace Filter

/-- The filter that shows events up to a level. -/
def upTo (levels : Nat) : Filter :=
  [{ levels }]

/-- The stretches between commas. -/
def splitCommas : List Char → List (List Char)
  | [] => [[]]
  | c :: rest =>
      if c = ',' then [] :: splitCommas rest
      else match splitCommas rest with
        | [] => [[c]]
        | part :: parts => (c :: part) :: parts

/-- Read a filter.  One without any directive shows errors only. -/
def ofText? (s : String) : Option Filter := do
  let directives ← ((splitCommas s.toList).filter (!·.isEmpty)).mapM Directive.ofChars?
  return if directives.isEmpty then upTo Level.error.rank else directives

/-- The directive that decides on an event: the most specific one, and of several the
last. -/
def deciding? (f : Filter) (e : Event) : Option Directive :=
  (f.filter fun (d : Directive) => d.isStatic && d.covers e).foldl
    (fun best d => match best with
      | some b => if b.outweighs d then some b else some d
      | none => some d) none

/-- Whether an event is shown. -/
def shows (f : Filter) (e : Event) : Bool :=
  match f.deciding? e with
  | some d => e.level.rank ≤ d.levels
  | none => false

end Filter

end TreeListing.Log
