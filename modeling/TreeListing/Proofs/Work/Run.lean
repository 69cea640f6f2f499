import TreeListing.Batch

/-!
# Running work

What a run of each piece of work is: the steps that every work is made of, then listing
from a cursor and listing a source text.  A run ends with a value or a failure and with
the workspace that it has left behind.
-/

namespace TreeListing.Work

variable {α β : Type}

/-! ## The steps -/

theorem runIn_bind (x : Work α) (f : α → Work β) (w : Workspace) :
    (x >>= f).runIn w =
      match x.runIn w with
      | (.ok a, after) => (f a).runIn after
      | (.error e, after) => (.error e, after) := by
  change ExceptT.bindCont f (x w).1 (x w).2 = _
  unfold runIn
  change _ = match x w with
    | (.ok a, after) => f a after
    | (.error e, after) => (.error e, after)
  rcases x w with ⟨_ | _, after⟩ <;> rfl

/-- Work goes on with the value that its first part ends with. -/
theorem runIn_bind_of_ok {x : Work α} {w after : Workspace} {a : α}
    (h : x.runIn w = (.ok a, after)) (f : α → Work β) :
    (x >>= f).runIn w = (f a).runIn after := by
  rw [runIn_bind, h]

theorem runIn_report (level : Log.Level) (target message : String)
    (fields : List (String × String)) (w : Workspace) :
    (report level target message fields).runIn w =
      (.ok (), { w with log := w.log.push ⟨level, target, message, fields⟩ }) :=
  rfl

theorem runIn_get (w : Workspace) : (get : Work Workspace).runIn w = (.ok w, w) :=
  rfl

theorem runIn_disk (w : Workspace) : disk.runIn w = (.ok w.disk, w) :=
  rfl

theorem runIn_setDisk (d : Disk) (w : Workspace) :
    (setDisk d).runIn w = (.ok (), { w with disk := d }) :=
  rfl

theorem runIn_modify (f : Workspace → Workspace) (w : Workspace) :
    (modify f : Work Unit).runIn w = (.ok (), f w) :=
  rfl

theorem runIn_ofExcept (r : Except Failure α) (w : Workspace) :
    (MonadExcept.ofExcept r : Work α).runIn w = (r, w) := by
  cases r <;> rfl

/-- An attempt ends with the outcome of the work, and never fails. -/
theorem runIn_attempt (t : Work α) (w : Workspace) :
    t.attempt.runIn w = (.ok (t.runIn w).1, (t.runIn w).2) :=
  rfl

/-- Work with a parser of its own runs with a fresh one, and the one from before is left. -/
theorem runIn_withOwnParser (t : Work α) (w : Workspace) :
    (withOwnParser t).runIn w =
      ((t.runIn { w with parser := {} }).1,
        { (t.runIn { w with parser := {} }).2 with parser := w.parser }) := by
  rw [withOwnParser, runIn_bind_of_ok (runIn_get w), runIn_bind_of_ok (runIn_modify ..),
    runIn_bind_of_ok (runIn_attempt ..), runIn_bind_of_ok (runIn_modify ..), runIn_ofExcept]

/-- Reporting once for each entry of a list only adds to the log. -/
theorem runIn_forM_report (level : Log.Level) (target message : String)
    (fields : α → List (String × String)) (entries : List α) (w : Workspace) :
    ∃ log, (entries.forM fun a => report level target message (fields a)).runIn w =
      (.ok (), { w with log }) := by
  induction entries generalizing w with
  | nil => exact ⟨w.log, rfl⟩
  | cons a entries ih =>
      obtain ⟨log, h⟩ := ih { w with log := w.log.push ⟨level, target, message, fields a⟩ }
      refine ⟨log, ?_⟩
      rw [← h]
      exact runIn_bind_of_ok (runIn_report ..) _

/-! ## Listing -/

/-- Listing from a cursor ends with the cursor's listing and only adds to the log. -/
theorem runIn_list {c last : Cursor} {lines : List String}
    (h : c.render = .ok (lines, last)) (w : Workspace) :
    ∃ log, (list c).runIn w = (.ok lines, { w with log }) := by
  obtain ⟨log, hrows⟩ := runIn_forM_report .trace "tree_builder::printer" "Opened row"
    (fun line => [("row", line)]) lines w
  unfold list
  rw [h]
  simp only
  rw [runIn_bind_of_ok hrows, runIn_bind_of_ok (runIn_report ..)]
  exact ⟨_, rfl⟩

/-- Listing a source text is listing the tree that parsing it ends with. -/
theorem runIn_render {grammars : Grammars} {source : String} {language : Language}
    {w after : Workspace} {p : Parse}
    (h : (parse grammars source language).runIn w = (.ok p, after)) :
    (render grammars source language).runIn w =
      (list (Cursor.confinedTo p.tree)).runIn after := by
  unfold render
  rw [runIn_bind_of_ok h]

end TreeListing.Work
