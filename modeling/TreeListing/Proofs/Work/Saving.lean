import TreeListing.Proofs.Disk.Saving
import TreeListing.Proofs.Work.Run

/-!
# Work that saves a listing

Saving a listing is `Disk.save` on the disk, and reports it (`runIn_writeRendered`).  What it
changes and what it leaves alone is read from there, on every disk (`writeRendered_saves`).  The
file then holds the lines with a line feed between any two, and none after the last.
-/

namespace TreeListing.Work

/-- Saving a listing changes the disk and adds to the log. -/
theorem runIn_writeRendered (lines : List String) (path : Path) (w : Workspace) :
    ∃ log, (writeRendered lines path).runIn w =
      ((w.disk.save lines path).1, ⟨(w.disk.save lines path).2, w.parser, log⟩) := by
  unfold writeRendered
  rw [Disk.save]
  cases path.parent?
  case' none => dsimp only
  case' some parent =>
    dsimp only
    rw [Disk.ready]
    cases parent.bytes.isEmpty
    case' true => simp only [Bool.not_true, Bool.false_eq_true, if_false, if_true]
    case' false =>
      simp only [Bool.not_false, Bool.false_eq_true, if_false, if_true]
      rw [runIn_bind_of_ok (runIn_disk w)]
      rcases w.disk.createDirectories parent with ⟨cause, made⟩
      rw [runIn_bind_of_ok (runIn_setDisk made w)]
      cases cause
      case' none => dsimp only
      case some cause => exact ⟨w.log, rfl⟩
  -- What is left in each case is to write the file.
  all_goals
    rw [runIn_bind_of_ok (runIn_disk _), Disk.store]
    cases Disk.write _ path (Text.bytes (joinLines lines)) with
    | error cause => exact ⟨w.log, rfl⟩
    | ok written => exact ⟨_, rfl⟩

/-- Saving a listing changes only what it must, on every disk.  With success the file that the
path leads to holds the lines with a line feed between any two and none after the last, nothing
else has changed but directories above it, and saving it again changes nothing.  When it fails,
the failure tells which path could not be made or written, no file has changed, and again only
directories above the path may be new. -/
theorem writeRendered_saves (lines : List String) (path : Path) (w : Workspace) :
    (∀ after, (writeRendered lines path).runIn w = (.ok (), after) →
      ∃ l, after.disk.locate .use path =
          .ok ⟨l, some (.file (Text.bytes ("\n".intercalate lines)))⟩ ∧
        after.disk.get? l = some (.file (Text.bytes ("\n".intercalate lines))) ∧
        Disk.Changes (after.disk.Above path) (· = l) w.disk after.disk ∧
        ∃ again, (writeRendered lines path).runIn after = (.ok (), again) ∧
          Disk.Same after.disk again.disk) ∧
    (∀ failure after, (writeRendered lines path).runIn w = (.error failure, after) →
      ((∃ parent cause, failure = .write parent cause ∧ path.parent? = some parent ∧
          parent.bytes ≠ [] ∧ w.disk.createDirectories parent = (some cause, after.disk)) ∨
        ∃ cause, failure = .write path cause ∧
          after.disk.write path (Text.bytes ("\n".intercalate lines)) = .error cause) ∧
      Disk.Changes (after.disk.Above path) Disk.nowhere w.disk after.disk) := by
  obtain ⟨log, hrun⟩ := runIn_writeRendered lines path w
  constructor
  · intro after h
    rw [hrun] at h
    obtain ⟨hok, rfl⟩ := Prod.mk.inj h
    obtain ⟨l, hplace, hget, hchanges, again, hagain, hsame⟩ := Disk.save_ok (Prod.ext hok rfl)
    obtain ⟨log', hrun'⟩ :=
      runIn_writeRendered lines path ⟨(w.disk.save lines path).2, w.parser, log⟩
    rw [hagain] at hrun'
    exact ⟨l, hplace, hget, hchanges, _, hrun', hsame⟩
  · intro failure after h
    rw [hrun] at h
    obtain ⟨herror, rfl⟩ := Prod.mk.inj h
    exact Disk.save_error (Prod.ext herror rfl)

/-- A disk where a listing goes through a link to a directory, to a link to a file, and where a
link that leads nowhere is in the way. -/
def linkedDisk : Disk where
  entries :=
    [([Text.bytes "site"], .directory),
      ([Text.bytes "site", Text.bytes "old"], .file (Text.bytes "longer than before")),
      ([Text.bytes "out"], .link (Path.ofText "site")),
      ([Text.bytes "site", Text.bytes "tree"], .link (Path.ofText "old")),
      ([Text.bytes "gone"], .link (Path.ofText "missing/place"))]

/-- The listing is written where the links lead, in place of a longer text, and nothing through
the one that leads nowhere. -/
theorem writeRendered_saves_linkedDisk :
    (∃ after l, (writeRendered ["a", "b"] (Path.ofText "out/tree")).runIn { disk := linkedDisk } =
        (.ok (), after) ∧
      after.disk.locate .use (Path.ofText "out/tree") =
        .ok ⟨l, some (.file (Text.bytes "a\nb"))⟩ ∧
      after.disk.get? l = some (.file (Text.bytes "a\nb")) ∧
      Disk.Changes (after.disk.Above (Path.ofText "out/tree")) (· = l) linkedDisk after.disk) ∧
    ∃ failure after,
      (writeRendered ["a"] (Path.ofText "gone/deep/tree")).runIn { disk := linkedDisk } =
        (.error failure, after) ∧
      Disk.Changes (after.disk.Above (Path.ofText "gone/deep/tree")) Disk.nowhere
        linkedDisk after.disk := by
  obtain ⟨log, hrun⟩ := runIn_writeRendered ["a", "b"] (Path.ofText "out/tree")
    { disk := linkedDisk }
  have hok : (linkedDisk.save ["a", "b"] (Path.ofText "out/tree")).1 = .ok () := by
    decide +kernel
  rw [hok] at hrun
  obtain ⟨l, hplace, hget, hchanges, _⟩ := (writeRendered_saves _ _ _).1 _ hrun
  have hjoined : "\n".intercalate ["a", "b"] = "a\nb" := by decide
  rw [hjoined] at hplace hget
  obtain ⟨log', hrun'⟩ := runIn_writeRendered ["a"] (Path.ofText "gone/deep/tree")
    { disk := linkedDisk }
  have herror : (linkedDisk.save ["a"] (Path.ofText "gone/deep/tree")).1 =
      .error (.write (Path.ofText "gone/deep") .alreadyExists) := by
    decide +kernel
  rw [herror] at hrun'
  have hfailed := (writeRendered_saves _ _ _).2 _ _ hrun'
  exact ⟨⟨_, l, hrun, hplace, hget, hchanges⟩, _, _, hrun', hfailed.2⟩

end TreeListing.Work
