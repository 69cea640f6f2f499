import Mathlib.Algebra.GroupWithZero.Nat
import Mathlib.Data.List.Induction
import Mathlib.Data.List.Nodup
import TreeListing.Proofs.Cursor.Moves
import TreeListing.Proofs.Tree.Preorder

/-!
# How long a walk is and where it goes

A walk is a chain of turns.  `Turns` lists the walks that the turns begin with, and every walk
has such a list: it ends, after exactly `turnsLeft` turns (`Turns.length_eq`).

A turn begins at a node, arriving there or coming back.  `visitsLeft` is the list of the visits
that a walk still has to make, and a turn makes the first of them (`visitsLeft_turn`).  A walk
from a start that the cursor cannot leave arrives at each node below it once and comes back to
each once (`Cursor.Confined.perm_visitsLeft`).

A walk that can leave its start climbs to the root.  `walk_ends` is the result for both.
-/

namespace TreeListing

namespace Walk

/-! ## Turns -/

/-- The turns that a walk takes until it ends: the walks that they begin with, in order, and
the walk at the end. -/
inductive Turns : Walk → List Walk → Walk → Prop where
  | last {w last : Walk} (h : w.turn = .done last) : Turns w [w] last
  | more {w next last : Walk} {heads : List Walk} (h : w.turn = .more next)
      (rest : Turns next heads last) : Turns w (w :: heads) last

/-- Every walk ends. -/
theorem exists_turns (w : Walk) : ∃ heads, w.Turns heads w.run := by
  induction w using run.induct with
  | case1 w last h =>
      rw [run_of_done h]
      exact ⟨[w], .last h⟩
  | case2 w next h _ ih =>
      rw [run_of_more h]
      obtain ⟨heads, hrest⟩ := ih
      exact ⟨w :: heads, .more h hrest⟩

/-- In its last turn a walk comes back to a node that nothing follows. -/
theorem eq_nil_of_turn_done {w last : Walk} (h : w.turn = .done last) :
    w.returning = true ∧ w.cursor.here.siblings = .nil ∧ w.cursor.above = [] := by
  have hreturning : w.returning = true := by
    cases hr : w.returning with
    | true => rfl
    | false => simp [turn, hr] at h
  obtain ⟨_, hright, hup⟩ := parent?_of_turn h
  exact ⟨hreturning, Cursor.siblings_of_nextSibling? hright, Cursor.above_of_parent? hup⟩

/-- A walk takes as many turns as it has left. -/
theorem Turns.length_eq {w last : Walk} {heads : List Walk} (h : w.Turns heads last) :
    heads.length = w.turnsLeft := by
  induction h with
  | last h =>
      obtain ⟨hreturning, hright, habove⟩ := eq_nil_of_turn_done h
      simp [turnsLeft, hreturning, hright, habove, turnsAfter, Forest.size]
  | more h _ ih => rw [List.length_cons, ih, turnsLeft_turn h]

theorem turnsAfter_eq (siblings : Forest) (above : List Position) :
    turnsAfter siblings above =
      2 * ((siblings :: above.map Position.siblings).map Forest.size).sum + above.length := by
  induction above generalizing siblings with
  | nil => simp [turnsAfter]
  | cons p above ih =>
      simp only [turnsAfter, ih, List.map_cons, List.sum_cons, List.length_cons]
      omega

/-! ## Visits -/

/-- What a turn begins with: the cursor, and whether it comes back to its node. -/
def visit (w : Walk) : Cursor × Bool :=
  (w.cursor, w.returning)

end Walk

/-- The visits to the nodes of a forest that stands below these positions: the first arrival at
each node comes before the visits below it, and the return after them. -/
def Forest.visits (above : List Position) (depth : Nat) : Forest → List (Cursor × Bool)
  | nil => []
  | cons node children siblings =>
      let here : Position := ⟨node, children, siblings⟩
      (⟨here, above, depth⟩, false) ::
        (children.visits (here :: above) (depth + 1) ++
          (⟨here, above, depth⟩, true) :: siblings.visits above depth)

namespace Walk

/-- The visits that follow when the subtree of a node is finished: those to the trees on its
right, then a return to each node above and the visits on the right of that. -/
def visitsAfter (siblings : Forest) (depth : Nat) : List Position → List (Cursor × Bool)
  | [] => siblings.visits [] depth
  | p :: above =>
      siblings.visits (p :: above) depth ++
        (⟨p, above, depth - 1⟩, true) :: visitsAfter p.siblings (depth - 1) above

/-- The visits that a walk still has to make. -/
def visitsLeft (w : Walk) : List (Cursor × Bool) :=
  let c := w.cursor
  let after := (c, true) :: visitsAfter c.here.siblings c.depth c.above
  if w.returning then after
  else (c, false) :: (c.here.children.visits (c.here :: c.above) (c.depth + 1) ++ after)

theorem visitsAfter_nil (depth : Nat) (p : Position) (above : List Position) :
    visitsAfter .nil depth (p :: above) =
      (⟨p, above, depth - 1⟩, true) :: visitsAfter p.siblings (depth - 1) above := rfl

/-- The first node to the right comes next. -/
theorem visitsAfter_cons (node : Node) (children siblings : Forest) (depth : Nat)
    (above : List Position) :
    visitsAfter (.cons node children siblings) depth above =
      (⟨⟨node, children, siblings⟩, above, depth⟩, false) ::
        (children.visits (⟨node, children, siblings⟩ :: above) (depth + 1) ++
          (⟨⟨node, children, siblings⟩, above, depth⟩, true) ::
            visitsAfter siblings depth above) := by
  cases above with
  | nil => rfl
  | cons p above => simp [visitsAfter, Forest.visits]

/-- A turn makes the first of the visits left. -/
theorem visitsLeft_turn {w next : Walk} (h : w.turn = .more next) :
    w.visitsLeft = w.visit :: next.visitsLeft := by
  unfold turn at h
  obtain ⟨⟨⟨node, children, siblings⟩, above, depth⟩, returning, rows, row, complete, level⟩ := w
  cases returning with
  | false =>
      simp only [Bool.false_eq_true, if_false, Turn.more.injEq] at h
      subst h
      cases children with
      | nil =>
          rw [arrive_of_leaf (by rfl)]
          simp [visitsLeft, visit, Forest.visits]
      | cons n c s =>
          rw [arrive_of_firstChild (by rfl)]
          simp [visitsLeft, visit, Forest.visits, visitsAfter]
  | true =>
      simp only [if_true, comeBack_eq] at h
      cases siblings with
      | cons n c s =>
          simp only [Cursor.nextSibling?, Turn.more.injEq] at h
          subst h
          simp [visitsLeft, visit, visitsAfter_cons]
      | nil =>
          cases above with
          | nil => simp [Cursor.nextSibling?, Cursor.parent?] at h
          | cons p above =>
              simp only [Cursor.nextSibling?, Cursor.parent?, Turn.more.injEq] at h
              subst h
              simp [visitsLeft, visit, passed, visitsAfter_nil]

/-- The turns of a walk make the visits that it has left. -/
theorem Turns.map_visit_eq {w last : Walk} {heads : List Walk} (h : w.Turns heads last) :
    heads.map visit = w.visitsLeft := by
  induction h with
  | last h =>
      obtain ⟨hreturning, hright, habove⟩ := eq_nil_of_turn_done h
      simp [visitsLeft, visit, hreturning, hright, habove, visitsAfter, Forest.visits]
  | more h _ ih => rw [List.map_cons, ih, visitsLeft_turn h]

end Walk

namespace Cursor

/-! ## Each node twice -/

/-- The trees to the right of a child tell which child it is. -/
theorem child?_injective {c below : Cursor} {i j : Nat} (hi : c.child? i = some below)
    (hj : c.child? j = some below) : i = j := by
  rw [child?_eq, Option.map_eq_some_iff] at hi hj
  obtain ⟨_, hsome, rfl⟩ := hi
  obtain ⟨_, hsome', heq⟩ := hj
  have hright := congrArg (fun d : Cursor => d.here.siblings.trees.length) heq
  simp only [Forest.trees_ofTrees, List.length_drop] at hright
  have hlt := (List.getElem?_eq_some_iff.mp hsome).1
  have hlt' := (List.getElem?_eq_some_iff.mp hsome').1
  omega

/-- The cursor at a node tells which child indices lead to the node. -/
theorem descend?_injective {c below : Cursor} {path other : List Nat}
    (h : c.descend? path = some below) (h' : c.descend? other = some below) : path = other := by
  induction path using List.reverseRecOn generalizing other below with
  | nil =>
      have hlength := (subtree_of_descend? h).2.symm.trans (subtree_of_descend? h').2
      rw [Nat.add_left_cancel_iff, List.length_nil] at hlength
      exact (List.length_eq_zero_iff.mp hlength.symm).symm
  | append_singleton path i ih =>
      have hlength := (subtree_of_descend? h).2.symm.trans (subtree_of_descend? h').2
      rcases List.eq_nil_or_concat other with rfl | ⟨other, j, rfl⟩
      · simp at hlength
      · rw [List.concat_eq_append] at h' ⊢
        rw [descend?_concat, Option.bind_eq_some_iff] at h h'
        obtain ⟨above, habove, hchild⟩ := h
        obtain ⟨above', habove', hchild'⟩ := h'
        have hsame := (parent?_of_child? hchild').symm.trans (parent?_of_child? hchild)
        obtain rfl := Option.some.inj hsame
        rw [ih habove habove', child?_injective hchild hchild']

/-- The first of a node's remaining children. -/
theorem child?_of_drop {c : Cursor} {i : Nat} {node : Node} {children siblings : Forest}
    (h : c.subtree.children.trees.drop i = (Forest.cons node children siblings).trees) :
    c.child? i = some ⟨⟨node, children, siblings⟩, c.here :: c.above, c.depth + 1⟩ := by
  have hfirst : c.subtree.children.trees[i]? = some ⟨node, children⟩ := by
    rw [← List.head?_drop, h]
    rfl
  rw [child?_eq, hfirst, Option.map_some, (Forest.subtree?_cons_of_drop h []).2,
    Forest.ofTrees_trees]

/-- The visits below a node from one of its children on: to the child and below it, back to the
child, and then to those on its right. -/
theorem visits_cons {c : Cursor} {node : Node} {children siblings : Forest} {i : Nat}
    (h : c.subtree.children.trees.drop i = (Forest.cons node children siblings).trees) :
    ∃ first : Cursor, (∀ rest, c.descend? (i :: rest) = first.descend? rest) ∧
      first.subtree.children.trees.drop 0 = children.trees ∧
      c.subtree.children.trees.drop (i + 1) = siblings.trees ∧
      (Forest.cons node children siblings).visits (c.here :: c.above) (c.depth + 1) =
        (first, false) :: (children.visits (first.here :: first.above) (first.depth + 1) ++
          (first, true) :: siblings.visits (c.here :: c.above) (c.depth + 1)) := by
  have hchild := child?_of_drop h
  refine ⟨_, fun rest => ?_, rfl, (Forest.subtree?_cons_of_drop h []).2, rfl⟩
  rw [descend?_cons, hchild, Option.bind_some]

/-- Below a node there are two visits to each place. -/
theorem perm_visits {c : Cursor} {f : Forest} {i : Nat}
    (h : c.subtree.children.trees.drop i = f.trees) :
    ((f.visits (c.here :: c.above) (c.depth + 1)).map fun v => (some v.1, v.2)).Perm
      ((f.places i).flatMap fun place =>
        [(c.descend? place, false), (c.descend? place, true)]) := by
  induction f generalizing c i with
  | nil => exact List.Perm.refl _
  | cons node children siblings ihChildren ihSiblings =>
      obtain ⟨first, hdescend, hchildren, hsiblings, hvisits⟩ := visits_cons h
      have hbelow := ihChildren hchildren
      have hright := ihSiblings hsiblings
      rw [hvisits]
      simp only [Forest.places, List.map_cons, List.map_append, List.flatMap_append,
        List.flatMap_cons, List.flatMap_map, hdescend, descend?_nil, List.cons_append,
        List.nil_append]
      -- the return to the node stands behind the visits below it
      exact (List.perm_middle.trans ((hbelow.append hright).cons _)).cons _

/-- From a start that the cursor cannot leave a walk visits the start, what is below it, and the
start again. -/
theorem Confined.visitsLeft_start {c : Cursor} (hc : c.Confined) :
    (Walk.start c).visitsLeft =
      (c, false) :: (c.here.children.visits (c.here :: c.above) (c.depth + 1) ++ [(c, true)]) := by
  simp [Walk.visitsLeft, Walk.start, hc.siblings, hc.above, Walk.visitsAfter, Forest.visits]

/-- From a start that the cursor cannot leave there are two visits to each place. -/
theorem Confined.perm_visitsLeft {c : Cursor} (hc : c.Confined) :
    (((Walk.start c).visitsLeft).map fun v => (some v.1, v.2)).Perm
      (c.subtree.places.flatMap fun place =>
        [(c.descend? place, false), (c.descend? place, true)]) := by
  have hbelow := perm_visits (c := c) (f := c.here.children) (i := 0) rfl
  rw [hc.visitsLeft_start, Tree.places, List.flatMap_cons, descend?_nil, List.map_cons,
    List.map_append]
  exact ((List.perm_append_singleton _ _).trans (hbelow.cons _)).cons _

/-- A walk from such a start arrives at each node once and comes back to it once. -/
theorem Confined.count_visitsLeft {c there : Cursor} (hc : c.Confined) {place : List Nat}
    (h : c.descend? place = some there) (returning : Bool) :
    ((Walk.start c).visitsLeft).count (there, returning) = 1 := by
  have hplace := (subtree_of_descend? h).1
  have hnodup : (c.subtree.places.flatMap fun place =>
      [(c.descend? place, false), (c.descend? place, true)]).Nodup := by
    rw [List.nodup_flatMap]
    refine ⟨fun place _ => by simp, c.subtree.nodup_places.imp_of_mem ?_⟩
    intro first second hfirst _ hne
    rw [Tree.mem_places_iff] at hfirst
    obtain ⟨sub, hsub⟩ := Option.isSome_iff_exists.mp hfirst
    obtain ⟨below, hbelow, _⟩ := exists_foldlM_child? hsub
    have hdiffer : c.descend? first ≠ c.descend? second := by
      intro heq
      exact hne (descend?_injective hbelow (heq.symm.trans hbelow))
    simp [Function.onFun, hdiffer.symm]
  have hmem : (some there, returning) ∈ c.subtree.places.flatMap fun place =>
      [(c.descend? place, false), (c.descend? place, true)] := by
    refine List.mem_flatMap.mpr ⟨place, Tree.mem_places_iff.mpr (by rw [hplace]; rfl), ?_⟩
    rw [h]
    cases returning <;> simp
  have hperm := hc.perm_visitsLeft
  refine List.count_eq_one_of_mem (List.Nodup.of_map _ (hperm.nodup_iff.mpr hnodup)) ?_
  obtain ⟨v, hv, heq⟩ := List.mem_map.mp (hperm.mem_iff.mpr hmem)
  simp only [Prod.mk.injEq, Option.some.injEq] at heq
  rwa [← heq.1, ← heq.2]

/-! ## The way to the root -/

/-- A move does not depend on the depth that a cursor reports. -/
theorem exists_move? {c d next : Cursor} {m : Move} (hhere : c.here = d.here)
    (habove : c.above = d.above) (h : c.move? m = some next) :
    ∃ other, d.move? m = some other ∧ next.here = other.here ∧ next.above = other.above := by
  obtain ⟨⟨node, children, siblings⟩, above, depth⟩ := c
  obtain ⟨_, _, _⟩ := d
  subst hhere habove
  cases m with
  | firstChild =>
      cases children with
      | nil => simp [move?, firstChild?] at h
      | cons n f s =>
          obtain rfl := Option.some.inj h
          exact ⟨_, rfl, rfl, rfl⟩
  | nextSibling =>
      cases siblings with
      | nil => simp [move?, nextSibling?] at h
      | cons n f s =>
          obtain rfl := Option.some.inj h
          exact ⟨_, rfl, rfl, rfl⟩
  | parent =>
      cases above with
      | nil => simp [move?, parent?] at h
      | cons p above =>
          obtain rfl := Option.some.inj h
          exact ⟨_, rfl, rfl, rfl⟩

/-- A walk from anywhere in a tree ends at the root. -/
theorem cursor_run_of_within? {t : Tree} {path : List Nat} {depth : Nat} {c : Cursor}
    (h : within? t path depth = some c) :
    ∃ last, (Walk.start c).run.cursor = { atRoot t with depth := last } := by
  have hroot := confined_atRoot t
  refine Walk.run_induction
    (P := fun w => ∃ path there, (atRoot t).descend? path = some there ∧
      w.cursor.here = there.here ∧ w.cursor.above = there.above)
    (Q := fun last => ∃ depth, last.cursor = { atRoot t with depth }) ?_ ?_ ?_
  · rintro w next ⟨path, there, hthere, hhere, habove⟩ hturn
    rcases Walk.move?_of_turn hturn with hsame | ⟨m, hmove⟩
    · exact ⟨path, there, hthere, hsame ▸ hhere, hsame ▸ habove⟩
    · obtain ⟨other, hother, hnext⟩ := exists_move? hhere habove hmove
      obtain ⟨target, htarget⟩ := exists_descend?_of_move? hroot ⟨path, hthere⟩ hother
      exact ⟨target, other, htarget, hnext⟩
  · rintro w last ⟨path, there, hthere, hhere, habove⟩ hturn
    have htop := (Walk.eq_nil_of_turn_done hturn).2.2
    have hup : there.parent? = none := by
      unfold parent?
      rw [← habove, htop]
    obtain rfl := eq_of_parent?_none ⟨path, hthere⟩ hup
    refine ⟨w.cursor.depth, (Walk.parent?_of_turn hturn).1.trans ?_⟩
    show w.cursor = ⟨(atRoot t).here, (atRoot t).above, w.cursor.depth⟩
    rw [← hhere, ← habove]
  · obtain ⟨there, hthere, rfl⟩ := Option.map_eq_some_iff.mp h
    exact ⟨path, there, hthere, rfl, rfl⟩

end Cursor

theorem Tree.length_rightOf {t sub : Tree} {path : List Nat} (h : t.subtree? path = some sub) :
    (t.rightOf path).length = path.length := by
  induction path generalizing t with
  | nil => rfl
  | cons i path ih =>
      obtain ⟨below, hbelow, hsub⟩ := subtree?_cons_eq_some_iff.mp h
      rw [rightOf_cons path hbelow, List.length_append, ih hsub]
      rfl

/-- Every walk ends.  From a start that the cursor cannot leave it takes two turns for each node
below the start, one that arrives there and one that comes back, and it ends at the start.
From a place in a tree it takes two turns for each node below its start and below the trees to
the right of the way up, and one for each node above the start, and it ends at the root. -/
theorem walk_ends :
    (∀ c : Cursor, c.Confined →
      ∃ heads, (Walk.start c).Turns heads (Walk.start c).run ∧
        heads.length = 2 * c.subtree.size ∧
        (∀ place sub, c.subtree.subtree? place = some sub →
          ∃ there, c.descend? place = some there ∧ there.subtree = sub ∧
            ∀ returning, (heads.map Walk.visit).count (there, returning) = 1) ∧
        (Walk.start c).run.cursor = c) ∧
    (∀ (t sub : Tree) (path : List Nat) (depth : Nat), t.subtree? path = some sub →
      ∃ c heads, Cursor.within? t path depth = some c ∧
        (Walk.start c).Turns heads (Walk.start c).run ∧
        heads.length = 2 * (sub.size + ((t.rightOf path).map Forest.size).sum) + path.length ∧
        ∃ last, (Walk.start c).run.cursor = { Cursor.atRoot t with depth := last }) := by
  constructor
  · intro c hc
    obtain ⟨heads, hturns⟩ := (Walk.start c).exists_turns
    refine ⟨heads, hturns, ?_, ?_, Cursor.cursor_walk_of_confined hc⟩
    · rw [hturns.length_eq]
      simp [Walk.turnsLeft, Walk.start, hc.siblings, hc.above, Walk.turnsAfter, Forest.size]
    · intro place sub hsub
      obtain ⟨there, hthere, hsame, _⟩ := Cursor.exists_foldlM_child? hsub
      refine ⟨there, hthere, hsame, fun returning => ?_⟩
      rw [hturns.map_visit_eq]
      exact hc.count_visitsLeft hthere returning
  · intro t sub path depth hsub
    obtain ⟨c, hwithin, _, rfl, hright⟩ := Cursor.exists_within? hsub depth
    obtain ⟨heads, hturns⟩ := (Walk.start c).exists_turns
    refine ⟨c, heads, hwithin, hturns, ?_, Cursor.cursor_run_of_within? hwithin⟩
    have habove : c.above.length = path.length := by
      have hlength := congrArg List.length hright
      simpa [Tree.length_rightOf hsub] using hlength
    have hleft : (Walk.start c).turnsLeft =
        2 * c.subtree.size + Walk.turnsAfter c.here.siblings c.above := rfl
    rw [hturns.length_eq, hleft, Walk.turnsAfter_eq, hright, habove]
    simp [Forest.size]
    omega

/-- Eight turns list the whole call.  From its argument there are two for the argument, two for
the missing token to the right of the way up, and one each for the parenthesis and the call. -/
theorem walk_ends_sampleCall :
    (Cursor.confinedTo sampleCall).Confined ∧ (sampleCall.subtree? [0, 0]).isSome ∧
      (∃ heads, (Walk.start (Cursor.confinedTo sampleCall)).Turns heads
          (Walk.start (Cursor.confinedTo sampleCall)).run ∧ heads.length = 8) ∧
      ∃ c heads, Cursor.within? sampleCall [0, 0] 2 = some c ∧
        (Walk.start c).Turns heads (Walk.start c).run ∧ heads.length = 6 := by
  have hconfined := Cursor.confined_confinedTo sampleCall
  have hplace : sampleCall.subtree? [0, 0] =
      some ⟨⟨"name", true, false, some "argument", ⟨0, 5⟩, ⟨0, 9⟩⟩, .nil⟩ := rfl
  obtain ⟨heads, hturns, hlength, _⟩ := walk_ends.1 _ hconfined
  obtain ⟨c, heads', hwithin, hturns', hlength', _⟩ := walk_ends.2 _ _ _ 2 hplace
  exact ⟨hconfined, by rw [hplace]; rfl, ⟨heads, hturns, hlength.trans (by decide)⟩,
    c, heads', hwithin, hturns', hlength'.trans (by decide)⟩

end TreeListing
