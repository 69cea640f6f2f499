import TreeListing.Tree.Basic

/-!
# Trees from outlines

An outline is a list of nodes with depths.  The parent of an entry is the nearest
earlier entry of strictly smaller depth; entries without one are roots.  Reading an
outline from its end, each entry adopts the trees that directly follow it and lie
deeper, so one pass rebuilds every tree.
-/

namespace TreeListing.Outline

/-- Put an entry in front of finished trees: it adopts the first of them that lie
deeper than itself. -/
def adopt (entry : Nat × Node) (finished : List (Nat × Tree)) : List (Nat × Tree) :=
  let deeper : Nat × Tree → Bool := fun t => decide (entry.1 < t.1)
  let children := (finished.takeWhile deeper).map Prod.snd
  (entry.1, ⟨entry.2, Forest.ofTrees children⟩) :: finished.dropWhile deeper

/-- The trees of an outline with the depths of their roots. -/
def trees (outline : List (Nat × Node)) : List (Nat × Tree) :=
  outline.foldr adopt []

/-- The tree that an outline with a single root describes. -/
def tree? (outline : List (Nat × Node)) : Option Tree :=
  match trees outline with
  | [(_, t)] => some t
  | _ => none

end TreeListing.Outline
