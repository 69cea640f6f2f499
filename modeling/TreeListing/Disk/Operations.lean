import TreeListing.Disk.Locate

/-!
# File operations

What programs do with a disk: look, read, write, and make directories.  An operation
that fails changes nothing, except that making several directories leaves those that it
has made.
-/

namespace TreeListing.Disk

/-- What is at the end of a path, if anything. -/
def find? (d : Disk) (p : Path) : Option Entry :=
  match d.locate .use p with
  | .ok place => place.entry
  | .error _ => none

/-- Whether a path leads to a file. -/
def isFile (d : Disk) (p : Path) : Bool :=
  match d.find? p with
  | some (.file _) => true
  | _ => false

/-- Whether a path leads to a directory. -/
def isDirectory (d : Disk) (p : Path) : Bool :=
  d.find? p == some .directory

/-- The content of a file. -/
def read (d : Disk) (p : Path) : Except IoFault Bytes := do
  let place ← d.locate .use p
  match place.entry with
  | some (.file content) => .ok content
  | some _ => .error .isDirectory
  | none => .error .notFound

/-- The text of a file. -/
def readText (d : Disk) (p : Path) : Except IoFault String := do
  let content ← d.read p
  match Text.ofBytes? content with
  | some text => .ok text
  | none => .error .notText

/-- Write a file, in place of its content if it is there. -/
def write (d : Disk) (p : Path) (content : Bytes) : Except IoFault Disk := do
  let place ← d.locate .write p
  match place.entry with
  | none | some (.file _) => .ok (d.put place.location (.file content))
  | some _ => .error .isDirectory

/-- Put something new in a place. -/
def create (d : Disk) (p : Path) (e : Entry) : Except IoFault Disk := do
  let place ← d.locate .replace p
  match place.entry with
  | none => .ok (d.put place.location e)
  | some _ => .error .alreadyExists

/-- Make a directory. -/
def createDirectory (d : Disk) (p : Path) : Except IoFault Disk :=
  d.create p .directory

/-- Climb from the first of these paths out to one that can be made or is a directory
already.  The result holds the paths that are still to be made, outermost first. -/
def climb (d : Disk) (missing : List Path) : List Path → Except IoFault (List Path × Disk)
  | [] => .ok (missing, d)
  | p :: outer =>
      match d.createDirectory p with
      | .ok made => .ok (missing, made)
      | .error .notFound => climb d (p :: missing) outer
      | .error .alreadyExists =>
          if d.isDirectory p then .ok (missing, d) else .error .alreadyExists
      | .error fault => .error fault

/-- Make directories in order, going on where one is there already.  When one cannot be
made, those before it are left. -/
def createAll (d : Disk) : List Path → Option IoFault × Disk
  | [] => (none, d)
  | p :: rest =>
      match d.createDirectory p with
      | .ok made => createAll made rest
      | .error .alreadyExists =>
          if d.isDirectory p then createAll d rest else (some .alreadyExists, d)
      | .error fault => (some fault, d)

/-- Make a directory with all the directories above it that are not there. -/
def createDirectories (d : Disk) (p : Path) : Option IoFault × Disk :=
  match d.climb [] (p.ancestors.takeWhile fun (q : Path) => q.parent?.isSome) with
  | .ok (missing, made) => made.createAll missing
  | .error fault => (some fault, d)

/-- Remove a file or a link. -/
def remove (d : Disk) (p : Path) : Except IoFault Disk := do
  let place ← d.locate .replace p
  match place.entry with
  | none => .error .notFound
  | some .directory => .error .isDirectory
  | some _ => .ok (d.erase place.location)

/-! ## Looking at a whole directory -/

/-- The entries below a location, by their locations from there. -/
def below (d : Disk) (l : Location) : List (Location × Entry) :=
  d.entries.filterMap fun (e : Location × Entry) =>
    if l.isPrefixOf e.1 && l.length < e.1.length then some (e.1.drop l.length, e.2) else none

/-- The path of a location from the root. -/
def pathOf (l : Location) : Path :=
  ⟨Path.slash :: [Path.slash].intercalate l⟩

end TreeListing.Disk
