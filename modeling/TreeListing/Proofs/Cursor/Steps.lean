import TreeListing.Proofs.Cursor.Moves

/-!
# Steps with a cursor

One cursor may be moved and listed from in any order and as often as one likes.  Each step has
a reply: whether a move was made, the lines of a listing, or why there is no listing.

A cursor that started at a node and cannot leave it is, after any steps, the cursor at some
child indices below its start (`exists_descend?_actAll`).  A move is one from these indices to
others, and a listing is refused below the start and ends at the start again, so both keep
this (`exists_descend?_act`).  What is seen after any steps follows from the indices alone
(`act_of_steps`).
-/

namespace TreeListing.Cursor

/-! ## Steps and replies -/

/-- What can be done with a cursor. -/
inductive Step where
  | move (m : Move)
  | list
deriving DecidableEq, Repr

/-- What a step replies. -/
inductive Reply where
  | moved (done : Bool)
  | listed (rows : List String)
  | refused (reason : NotAtRoot)
deriving DecidableEq, Repr

/-- Take a step.  A move that has no target and a listing that is refused leave the cursor. -/
def act (c : Cursor) : Step → Reply × Cursor
  | .move m =>
      match c.move? m with
      | some next => (.moved true, next)
      | none => (.moved false, c)
  | .list =>
      match c.render with
      | .ok (rows, last) => (.listed rows, last)
      | .error reason => (.refused reason, c)

/-- Take steps one after the other. -/
def actAll (c : Cursor) (steps : List Step) : Cursor :=
  steps.foldl (fun c step => (c.act step).2) c

theorem act_move_of_some {c next : Cursor} {m : Move} (h : c.move? m = some next) :
    c.act (.move m) = (.moved true, next) := by
  rw [act, h]

theorem act_move_of_none {c : Cursor} {m : Move} (h : c.move? m = none) :
    c.act (.move m) = (.moved false, c) := by
  rw [act, h]

/-- A move that is not made leaves the cursor as it is. -/
theorem act_move_of_false {c : Cursor} {m : Move} (h : (c.act (.move m)).1 = .moved false) :
    (c.act (.move m)).2 = c := by
  cases hmove : c.move? m with
  | none => rw [act_move_of_none hmove]
  | some next => simp [act_move_of_some hmove] at h

/-- Below its start a cursor is not listed from. -/
theorem act_list_of_depth {c : Cursor} (h : c.depth ≠ 0) :
    c.act .list = (.refused ⟨c.depth⟩, c) := by
  rw [act, render, if_neg h]

/-- Listing from a start that the cursor cannot leave brings the cursor back to it. -/
theorem act_list_of_confined {c : Cursor} (hc : c.Confined) :
    c.act .list = (.listed c.walk.1, c) := by
  rw [act, render_of_depth hc.depth]
  exact congrArg _ (cursor_walk_of_confined hc)

/-! ## What steps keep -/

section Started

variable {start c : Cursor} (hstart : start.Confined)

include hstart

/-- Below a start, depth zero is at the start. -/
theorem eq_of_depth (hc : ∃ path, start.descend? path = some c) (h : c.depth = 0) :
    c = start := by
  obtain ⟨path, hpath⟩ := hc
  have hdepth := (subtree_of_descend? hpath).2
  rw [hstart.depth, h, Nat.zero_add] at hdepth
  obtain rfl := List.eq_nil_of_length_eq_zero hdepth.symm
  exact (Option.some.inj hpath).symm

/-- A step does not leave the nodes below the start. -/
theorem exists_descend?_act (hc : ∃ path, start.descend? path = some c) (step : Step) :
    ∃ path, start.descend? path = some (c.act step).2 := by
  cases step with
  | move m =>
      cases hmove : c.move? m with
      | none => rwa [act_move_of_none hmove]
      | some next =>
          rw [act_move_of_some hmove]
          exact exists_descend?_of_move? hstart hc hmove
  | list =>
      by_cases hdepth : c.depth = 0
      · obtain rfl := eq_of_depth hstart hc hdepth
        rwa [act_list_of_confined hstart]
      · rwa [act_list_of_depth hdepth]

/-- No steps leave the nodes below the start. -/
theorem exists_descend?_actAll (hc : ∃ path, start.descend? path = some c)
    (steps : List Step) : ∃ path, start.descend? path = some (c.actAll steps) := by
  induction steps generalizing c with
  | nil => exact hc
  | cons step steps ih => exact ih (exists_descend?_act hstart hc step)

end Started

/-- Below its start a confined cursor shows the subtrees of its tree; at the start the field at
the root is left out. -/
theorem exists_subtree?_of_descend? {sub : Tree} {c : Cursor} {path : List Nat}
    (h : (confinedTo sub).descend? path = some c) :
    ∃ below, sub.subtree? path = some below ∧
      c.subtree = if path = [] then below.detached else below := by
  have hplace : sub.detached.subtree? path = some c.subtree := (subtree_of_descend? h).1
  by_cases hnil : path = []
  · subst hnil
    refine ⟨sub, rfl, ?_⟩
    rw [if_pos rfl]
    exact (Option.some.inj hplace).symm
  · rw [Tree.subtree?_detached hnil] at hplace
    exact ⟨c.subtree, hplace, (if_neg hnil).symm⟩

/-- After any steps from a node of a tree whose height is a number of 32 bits, a cursor that
cannot leave this node stands at some child indices below it: it shows the subtree there,
without a field if that is the node itself, and its depth is the number of edges on the way.
A move leads to the node at its target if there is one; else it says so and leaves the cursor
as it is.  At the start, which is where the depth is zero, the node's listing is given and the
cursor is at the start again; anywhere else a listing is refused with the depth and the cursor
stays. -/
theorem act_of_steps {t sub : Tree} {place : List Nat} (hheight : t.height < UInt32.size)
    (hsub : t.subtree? place = some sub) (steps : List Step) :
    let start := confinedTo sub
    let c := start.actAll steps
    (∃ path below, t.subtree? (place ++ path) = some below ∧
      c.subtree = (if path = [] then below.detached else below) ∧
      c.depth = path.length ∧ c.depth < UInt32.size ∧
      ∀ m, c.move? m = (m.target? path).bind start.descend?) ∧
    (∀ m next, c.move? m = some next → c.act (.move m) = (.moved true, next)) ∧
    (∀ m, c.move? m = none → c.act (.move m) = (.moved false, c)) ∧
    (∀ m, (c.act (.move m)).1 = .moved false → (c.act (.move m)).2 = c) ∧
    (c.depth = 0 ↔ c = start) ∧
    ((∃ rows, (c.act .list).1 = .listed rows) ↔ c.depth = 0) ∧
    (c.depth = 0 → c.act .list = (.listed sub.render, start) ∧
      (sub.detached.lines 0).mapM Line.text? = some sub.render) ∧
    (c.depth ≠ 0 → c.act .list = (.refused ⟨c.depth⟩, c)) := by
  intro start c
  have hstart : start.Confined := confined_confinedTo sub
  obtain ⟨path, hpath⟩ := exists_descend?_actAll hstart ⟨[], descend?_nil start⟩ steps
  obtain ⟨below, hbelow, hsubtree⟩ := exists_subtree?_of_descend? hpath
  have hdepth : c.depth = path.length := by
    rw [(subtree_of_descend? hpath).2, hstart.depth, Nat.zero_add]
  have hwhole : t.subtree? (place ++ path) = some below := by
    rw [Tree.subtree?_append, hsub, Option.bind_some, hbelow]
  have hlimit : c.depth < UInt32.size := by
    have hlength := Tree.length_add_height_le hwhole
    rw [List.length_append] at hlength
    omega
  have hzero : c.depth = 0 ↔ c = start :=
    ⟨eq_of_depth hstart ⟨path, hpath⟩, fun h => by rw [h]; exact hstart.depth⟩
  have hlist : c.depth = 0 → c.act .list = (.listed sub.render, start) := by
    intro h
    rw [hzero.mp h]
    exact act_list_of_confined hstart
  refine ⟨⟨path, below, hwhole, hsubtree, hdepth, hlimit, move?_of_descend? hstart hpath⟩,
    fun _ _ => act_move_of_some, fun _ => act_move_of_none, fun _ => act_move_of_false, hzero,
    ⟨?_, ?_⟩, ?_, act_list_of_depth⟩
  · rintro ⟨rows, hrows⟩
    by_cases h : c.depth = 0
    · exact h
    · simp [act_list_of_depth h] at hrows
  · intro h
    exact ⟨sub.render, by rw [hlist h]⟩
  · intro h
    have hsubheight := Tree.height_le_of_subtree? hsub
    have hlevels : UInt32.size < Line.levelLimit := by decide
    have hdetached : sub.detached.height < Line.levelLimit := by
      have : sub.detached.height = sub.height := rfl
      omega
    exact ⟨hlist h, by rw [Tree.render_eq_listing]; exact Tree.mapM_text?_lines hdetached⟩

/-- The token of the sample call, with the argument below it. -/
def sampleToken : Tree :=
  ⟨⟨"(", false, false, none, ⟨0, 4⟩, ⟨0, 11⟩⟩,
    .cons ⟨"name", true, false, some "argument", ⟨0, 5⟩, ⟨0, 9⟩⟩ .nil .nil⟩

/-- Steps with a cursor at the token: a listing from the argument is refused, then the cursor
climbs back, lists the token's subtree and cannot climb further. -/
theorem act_of_steps_sampleToken :
    sampleCall.height < UInt32.size ∧ sampleCall.subtree? [0] = some sampleToken ∧
      let below := (confinedTo sampleToken).actAll [.move .firstChild]
      let back := (confinedTo sampleToken).actAll [.move .firstChild, .list, .move .parent]
      below.act .list = (.refused ⟨1⟩, below) ∧
        back.act .list =
          (.listed ["  argument: name [0, 5] - [0, 9]"], confinedTo sampleToken) ∧
        back.act (.move .parent) = (.moved false, back) := by
  have hheight : sampleCall.height < UInt32.size := by decide
  have hsub : sampleCall.subtree? [0] = some sampleToken := by decide
  obtain ⟨-, -, -, -, -, -, -, hrefused⟩ := act_of_steps hheight hsub [.move .firstChild]
  obtain ⟨-, -, hstays, -, -, -, hlisted, -⟩ := act_of_steps hheight hsub
    [.move .firstChild, .list, .move .parent]
  obtain ⟨hlist, hrows⟩ := hlisted rfl
  have hlines : (sampleToken.detached.lines 0).mapM Line.text? =
      some ["  argument: name [0, 5] - [0, 9]"] := by decide
  refine ⟨hheight, hsub, hrefused (by decide), ?_, hstays .parent rfl⟩
  rw [hlist, Option.some.inj (hrows.symm.trans hlines)]

end TreeListing.Cursor
