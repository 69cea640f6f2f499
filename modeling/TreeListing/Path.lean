import TreeListing.Text.Quoted

/-!
# Paths

A path is a byte sequence whose parts are separated by slashes.  It is kept as it was
written: joining and taking apart change nothing but the end they work on.  A leading
slash or a leading dot belongs to the path's *lead*; in the rest, empty parts and dots
are inert, they name nothing.
-/

namespace TreeListing

/-- A file path as it was written. -/
structure Path where
  bytes : Bytes
deriving DecidableEq, Repr, Inhabited

namespace Path

/-- The separator. -/
def slash : UInt8 := 0x2F

/-- The dot, alone the name of the same directory, twice that of the parent. -/
def dot : UInt8 := 0x2E

/-- The path with the given text. -/
def ofText (s : String) : Path :=
  ⟨Text.bytes s⟩

/-- The path as text; what is no text in it is replaced. -/
def text (p : Path) : String :=
  Text.lossy p.bytes

/-- The path in quotes. -/
def quoted (p : Path) : String :=
  Text.quotedBytes p.bytes

/-- A path that starts at the root. -/
def isAbsolute (p : Path) : Bool :=
  p.bytes.head? == some slash

/-- Go on from `p` by `q`.  An absolute `q` replaces `p`; otherwise a separator stands
between them unless `p` is empty or ends in one. -/
def join (p q : Path) : Path :=
  if q.isAbsolute then q
  else if p.bytes.isEmpty || p.bytes.getLast? == some slash then ⟨p.bytes ++ q.bytes⟩
  else ⟨p.bytes ++ slash :: q.bytes⟩

/-- The stretches between separators, one more than there are separators. -/
def split : Bytes → List Bytes
  | [] => [[]]
  | b :: rest =>
      if b = slash then [] :: split rest
      else match split rest with
        | [] => [[b]]
        | part :: parts => (b :: part) :: parts

/-- A part that names nothing: empty or a single dot. -/
def inert (part : Bytes) : Bool :=
  part.isEmpty || part == [dot]

/-- The part that names the parent directory. -/
def up : Bytes := [dot, dot]

/-- A leading slash, or a dot that is the whole first part. -/
def lead (p : Path) : Bytes :=
  match p.bytes with
  | b :: rest =>
      if b = slash then [slash]
      else if b = dot && (rest.isEmpty || rest.head? == some slash) then [dot]
      else []
  | [] => []

/-- Drop the inert parts at the end. -/
def dropInert (parts : List Bytes) : List Bytes :=
  (parts.reverse.dropWhile inert).reverse

/-- The parts after the lead, up to the last that is not inert. -/
def parts (p : Path) : List Bytes :=
  dropInert (split (p.bytes.drop p.lead.length))

/-- The last part, unless it is the parent's name or there is none. -/
def name? (p : Path) : Option Bytes :=
  p.parts.getLast?.filter (· != up)

/-- The path without its last part.  A lone dot is left as the empty path; the root and
the empty path have no parent. -/
def parent? (p : Path) : Option Path :=
  if p.parts.isEmpty then
    if p.lead = [dot] then some ⟨[]⟩ else none
  else some ⟨p.lead ++ [slash].intercalate (dropInert p.parts.dropLast)⟩

/-- A path, its parent, the parent's parent, and so on: at most `n` of them. -/
def ancestorsWithin : Nat → Path → List Path
  | 0, _ => []
  | n + 1, p => p :: (p.parent?.map (ancestorsWithin n)).getD []

/-- A path and all the paths above it, from the innermost out. -/
def ancestors (p : Path) : List Path :=
  ancestorsWithin (p.bytes.length + 1) p

/-- The bytes before and after the last dot of a name. -/
def splitLastDot (name : Bytes) : Option (Bytes × Bytes) :=
  if name.contains dot then
    let back := name.reverse
    some ((back.dropWhile (· != dot)).tail.reverse, (back.takeWhile (· != dot)).reverse)
  else none

/-- The name up to its last dot; the whole name when that dot is its first byte or when
it has none. -/
def stem? (p : Path) : Option Bytes :=
  p.name?.map fun name =>
    match splitLastDot name with
    | some (before, _) => if before.isEmpty then name else before
    | none => name

/-- The name after its last dot, unless that dot is its first byte. -/
def extension? (p : Path) : Option Bytes :=
  p.name?.bind fun name =>
    match splitLastDot name with
    | some (before, after) => if before.isEmpty then none else some after
    | none => none

end Path

end TreeListing
