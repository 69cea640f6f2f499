import TreeListing.Disk.Fault
import TreeListing.Path

/-!
# Disks

A disk holds files, directories and symbolic links by their location, which is the list
of names that lead to it from the root.  The root itself is always a directory.  One
directory is the working directory, from which relative paths start.
-/

namespace TreeListing

/-- The names from the root to an entry, outermost first. -/
abbrev Location := List Bytes

/-- What is at a location. -/
inductive Entry where
  | file (content : Bytes)
  | directory
  /-- A symbolic link to a path. -/
  | link (target : Path)
deriving DecidableEq, Repr

/-- Files, directories and links by location. -/
structure Disk where
  entries : List (Location × Entry) := []
  workingDirectory : Location := []
deriving DecidableEq, Repr, Inhabited

namespace Disk

/-- What is at a location. -/
def get? (d : Disk) (l : Location) : Option Entry :=
  if l.isEmpty then some .directory else d.entries.lookup l

/-- With nothing at a location. -/
def erase (d : Disk) (l : Location) : Disk :=
  { d with entries := d.entries.filter fun (e : Location × Entry) => e.1 != l }

/-- With an entry at a location in place of what was there. -/
def put (d : Disk) (l : Location) (e : Entry) : Disk :=
  { d with entries := (l, e) :: (d.erase l).entries }

theorem get?_put_self {d : Disk} {l : Location} (h : l ≠ []) (e : Entry) :
    (d.put l e).get? l = some e := by
  simp [get?, put, h]

private theorem lookup_filter_ne {l m : Location} (h : m ≠ l)
    (entries : List (Location × Entry)) :
    (entries.filter fun (e : Location × Entry) => e.1 != l).lookup m = entries.lookup m := by
  induction entries with
  | nil => rfl
  | cons e rest ih =>
      obtain ⟨k, v⟩ := e
      by_cases hk : k = l
      · have hm : (m == l) = false := by simp [h]
        simpa [hk, List.lookup_cons, hm] using ih
      · simp [hk, List.lookup_cons, ih]

theorem get?_put_of_ne {d : Disk} {l m : Location} (h : m ≠ l) (e : Entry) :
    (d.put l e).get? m = d.get? m := by
  have hm : (m == l) = false := by simp [h]
  simp [get?, put, erase, List.lookup_cons, hm, lookup_filter_ne h]

end Disk

end TreeListing
