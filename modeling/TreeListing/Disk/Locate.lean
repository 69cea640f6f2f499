import TreeListing.Disk.Basic

/-!
# From paths to locations

A path is followed name by name.  Empty parts and single dots stay where they are, two
dots go up, and a link is replaced by the parts of its target; only so many links are
followed.  The last name need not be there.  What else becomes of the last name depends
on what the path is followed for.
-/

namespace TreeListing.Disk

/-- What a path is followed for. -/
inductive Purpose where
  /-- To use what is there, at the end of all links. -/
  | use
  /-- To write a file, which may not be there yet. -/
  | write
  /-- To put something new in a place, or to remove what is there; a link is an entry
  like any other. -/
  | replace
deriving DecidableEq, Repr

/-- A place that a path leads to, and what is there. -/
structure Place where
  location : Location
  entry : Option Entry
deriving DecidableEq, Repr

/-- The most bytes of a name. -/
def nameLimit : Nat := 255

/-- The most bytes of a path, and one more. -/
def pathLimit : Nat := 4096

/-- The most links that are followed on one path. -/
def linkLimit : Nat := 40

/-- Follow the parts of a path from a directory.  `follow` goes on from a link. -/
def step (d : Disk) (purpose : Purpose)
    (follow : Location → List Bytes → Except IoFault Place) :
    Location → List Bytes → Except IoFault Place
  | here, [] => .ok ⟨here, some .directory⟩
  | here, part :: rest =>
      let atEnd := rest.all List.isEmpty
      if Path.inert part then step d purpose follow here rest
      else if part = Path.up then step d purpose follow here.dropLast rest
      else if purpose = .write && atEnd && !rest.isEmpty then .error .isDirectory
      else if nameLimit < part.length then .error .nameTooLong
      else
        let there := here ++ [part]
        let last := rest.isEmpty || purpose = .replace && atEnd
        match d.get? there with
        | none => if last then .ok ⟨there, none⟩ else .error .notFound
        | some .directory => step d purpose follow there rest
        | some (.file content) =>
            if last then .ok ⟨there, some (.file content)⟩ else .error .notDirectory
        | some (.link target) =>
            if last && purpose = .replace then .ok ⟨there, some (.link target)⟩
            else follow (if target.isAbsolute then [] else here) (Path.split target.bytes ++ rest)

/-- Follow the parts of a path over at most `n` links. -/
def walk (d : Disk) (purpose : Purpose) : Nat → Location → List Bytes → Except IoFault Place
  | 0 => d.step purpose fun _ _ => .error .tooManyLinks
  | n + 1 => d.step purpose (walk d purpose n)

/-- The place that a path leads to. -/
def locate (d : Disk) (purpose : Purpose) (p : Path) : Except IoFault Place :=
  if p.bytes.contains 0 then .error .nulByte
  else if p.bytes.isEmpty then .error .notFound
  else if pathLimit ≤ p.bytes.length then .error .nameTooLong
  else
    d.walk purpose linkLimit (if p.isAbsolute then [] else d.workingDirectory)
      (Path.split p.bytes)

end TreeListing.Disk
