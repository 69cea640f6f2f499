/-!
# Nested entries

Entries with depths describe trees: the parent of an entry is the nearest earlier entry
of strictly smaller depth, and an entry without one is a root.  The trees are built in
the order of the entries, each entry being put below its parent after all that stands
there already.
-/

namespace TreeListing

/-- Entries side by side, each with the entries nested in it. -/
inductive Nest (α : Type) where
  /-- No entry. -/
  | nil
  /-- A first entry, the entries nested in it, and the entries next to it. -/
  | cons (label : α) (inner next : Nest α)
deriving DecidableEq, Repr

namespace Nest

variable {α : Type}

/-- The entries in pre-order. -/
def labels : Nest α → List α
  | nil => []
  | cons label inner next => label :: inner.labels ++ next.labels

section Depths

variable (depth : α → Nat)

/-- Whether a nest holds an entry of strictly smaller depth. -/
def holdsShallower (n : Nest α) (a : α) : Bool :=
  n.labels.any fun b => decide (depth b < depth a)

/-- Put an entry behind all others, below the last of them in pre-order whose depth is
strictly smaller, or beside the roots if there is none. -/
def attach (a : α) : Nest α → Nest α
  | nil => cons a nil nil
  | cons b inner next =>
      if next.holdsShallower depth a then cons b inner (next.attach a)
      else if decide (depth b < depth a) || inner.holdsShallower depth a then
        cons b (inner.attach a) next
      else cons b inner (next.attach a)

/-- The nest that a list of entries describes. -/
def ofList (entries : List α) : Nest α :=
  entries.foldl (fun n a => n.attach depth a) nil

end Depths

end Nest

end TreeListing
