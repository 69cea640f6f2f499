import TreeListing.Failure
import TreeListing.Line
import TreeListing.Proofs.Disk.Links

/-!
# Saving a listing

A listing is saved at any path on any disk, with or without links: the directories above are
made and the file is written.  `Disk.save` is the operation.

Making directories makes some that paths on the way name, and nothing else
(`changes_made`).  Once it has succeeded there is nothing left to do
(`createDirectories_of_changes`): the directory is there, and whatever else happens it stays
there.  A file that has been written is the one that its path leads to (`written_of_write`),
and writing the same again changes nothing.
-/

namespace TreeListing.Disk

/-! ## Directories on a disk with links -/

/-- A location to which one of the paths leads, and where a directory is. -/
def Named (d : Disk) (paths : List Path) (l : Location) : Prop :=
  ∃ q ∈ paths, d.locate .use q = .ok ⟨l, some .directory⟩

section Directories

variable {d made after : Disk} {directories files : Location → Prop} {p : Path}

theorem isDirectory_iff :
    d.isDirectory p = true ↔ ∃ l, d.locate .use p = .ok ⟨l, some .directory⟩ := by
  unfold isDirectory find?
  rcases d.locate .use p with fault | ⟨l, _ | _ | _ | _⟩ <;> simp

/-- A directory stays where it is. -/
theorem Changes.isDirectory (h : Changes directories files d after)
    (hd : d.isDirectory p = true) : after.isDirectory p = true := by
  rw [isDirectory_iff] at hd ⊢
  obtain ⟨l, hl⟩ := hd
  exact ⟨l, h.locate_directory hl⟩

theorem Changes.named (h : Changes directories files d after) {paths : List Path} {l : Location}
    (hl : d.Named paths l) : after.Named paths l := by
  obtain ⟨q, hq, hplace⟩ := hl
  exact ⟨q, hq, h.locate_directory hplace⟩

/-- A directory that has been made is the one that its path leads to. -/
theorem made_of_createDirectory (h : d.createDirectory p = .ok made) :
    ∃ l, made.locate .use p = .ok ⟨l, some .directory⟩ ∧ Changes (· = l) nowhere d made := by
  obtain ⟨place, hplace, hnone, rfl⟩ := exists_of_createDirectory h
  have hget : d.get? place.location = none := by
    rcases entry_of_locate_eq_ok hplace with hentry | hentry
    · simp [hnone] at hentry
    · rw [← hentry, hnone]
  have hchanges := Changes.put_directory hget
  refine ⟨place.location, locate_use_of_replace ?_, hchanges⟩
  have hne : place.location ≠ [] := by
    intro hnil
    simp [hnil, get?_nil] at hget
  have hlater := hchanges.locate hplace
  rwa [Place.on, hnone, if_neg (by simp), get?_put_self hne] at hlater

/-- Making directories makes some that the paths on the way name, and nothing else. -/
theorem changes_made (h : (d.createDirectories p).2 = made) :
    Changes (made.Named p.chain) nowhere d made := by
  rw [← h]
  refine createDirectories_induction (R := fun e e' => Changes (e'.Named p.chain) nowhere e e')
    (fun e => .refl _ _ e) (fun h h' => ?_) (fun hq hmade => ?_) (List.Subset.refl _)
  · exact (h.mono (fun _ => h'.named) fun _ => id).trans h'
  · obtain ⟨l, hl, hchanges⟩ := made_of_createDirectory hmade
    exact hchanges.mono (fun _ hm => ⟨_, hq, hm ▸ hl⟩) fun _ => id

/-- A directory cannot be made where a path leads to one. -/
theorem createDirectory_of_isDirectory (h : d.isDirectory p = true) :
    d.createDirectory p = .error .alreadyExists := by
  obtain ⟨l, hl⟩ := isDirectory_iff.mp h
  obtain ⟨place, hplace, hentry⟩ := exists_locate_replace hl
  obtain ⟨entry, hsome⟩ := Option.isSome_iff_exists.mp hentry
  rw [createDirectory, create, hplace]
  simp [bind, Except.bind, hsome]

theorem changes_createAll (d : Disk) (paths : List Path) :
    Changes (fun _ => True) nowhere d (d.createAll paths).2 := by
  refine createAll_induction (R := Changes (fun _ => True) nowhere) (fun e => .refl _ _ e)
    (fun h h' => h.trans h') (fun _ hmade => ?_) (List.Subset.refl paths)
  obtain ⟨l, _, hchanges⟩ := made_of_createDirectory hmade
  exact hchanges.mono (fun _ _ => trivial) fun _ => id

/-- After all directories have been made, they are all there. -/
theorem isDirectory_of_createAll {paths : List Path} (h : d.createAll paths = (none, made)) :
    ∀ q ∈ paths, made.isDirectory q = true := by
  induction paths generalizing d with
  | nil => simp
  | cons q rest ih =>
      have hkept : ∀ next : Disk, next.isDirectory q = true → next.createAll rest = (none, made) →
          ∀ other ∈ q :: rest, made.isDirectory other = true := by
        intro next hnext hrest other hother
        rcases List.mem_cons.mp hother with rfl | hother
        · have hchanges := changes_createAll next rest
          rw [hrest] at hchanges
          exact hchanges.isDirectory hnext
        · exact ih hrest other hother
      rw [createAll] at h
      split at h
      · next next hmade =>
          obtain ⟨l, hl, _⟩ := made_of_createDirectory hmade
          exact hkept next (isDirectory_iff.mpr ⟨l, hl⟩) h
      · split at h
        · next hthere => exact hkept d hthere h
        · simp at h
      · simp at h

theorem createDirectories_of_parent?_none (d : Disk) (h : p.parent? = none) :
    d.createDirectories p = (none, d) := by
  rw [createDirectories, ← Path.chain, Path.chain_of_none h]
  rfl

/-- After the directories on a path have been made, it leads to one. -/
theorem isDirectory_of_createDirectories {outer : Path} (houter : p.parent? = some outer)
    (h : d.createDirectories p = (none, made)) : made.isDirectory p = true := by
  rw [createDirectories, ← Path.chain, Path.chain_of_some houter, climb] at h
  cases hmake : d.createDirectory p with
  | ok next =>
      simp only [hmake, createAll, Prod.mk.injEq, true_and] at h
      obtain ⟨l, hl, _⟩ := made_of_createDirectory hmake
      exact h ▸ isDirectory_iff.mpr ⟨l, hl⟩
  | error fault =>
      rw [hmake] at h
      cases fault
      case notFound =>
        -- the path waits until those above it are made
        dsimp only at h
        split at h
        · next missing next hclimb =>
            have hwaits := (subset_of_climb hclimb).1 (List.mem_singleton_self p)
            exact isDirectory_of_createAll h p hwaits
        · simp at h
      case alreadyExists =>
        dsimp only at h
        split at h
        · next hok =>
            split at hok
            · next hthere =>
                rw [Except.ok.injEq, Prod.mk.injEq] at hok
                obtain ⟨rfl, rfl⟩ := hok
                obtain ⟨-, rfl⟩ := Prod.mk.inj h
                exact hthere
            · simp at hok
        · simp at h
      all_goals simp at h

theorem createDirectories_of_isDirectory (h : d.isDirectory p = true) :
    d.createDirectories p = (none, d) := by
  cases houter : p.parent? with
  | none => exact createDirectories_of_parent?_none d houter
  | some outer =>
      rw [createDirectories, ← Path.chain, Path.chain_of_some houter, climb,
        createDirectory_of_isDirectory h]
      dsimp only
      rw [if_pos h]
      rfl

/-- Once the directories on a path have been made there is nothing to do, whatever is made or
written after that. -/
theorem createDirectories_of_changes (h : d.createDirectories p = (none, made))
    (hafter : Changes directories files made after) :
    after.createDirectories p = (none, after) := by
  cases houter : p.parent? with
  | none => exact createDirectories_of_parent?_none after houter
  | some outer =>
      have hthere := isDirectory_of_createDirectories houter h
      exact createDirectories_of_isDirectory (hafter.isDirectory hthere)

end Directories

/-! ## Files on a disk with links -/

section Files

variable {d written : Disk} {p : Path} {content : Bytes}

/-- A file that has been written is the one that its path leads to, and writing the same again
changes nothing. -/
theorem written_of_write (h : d.write p content = .ok written) :
    ∃ l, written.locate .use p = .ok ⟨l, some (.file content)⟩ ∧
      written.get? l = some (.file content) ∧ Changes nowhere (· = l) d written ∧
      ∃ again, written.write p content = .ok again ∧ Same written again := by
  obtain ⟨place, hplace, hthere, rfl⟩ := exists_of_write h
  have hentry : place.entry = d.get? place.location := by
    rcases entry_of_locate_eq_ok hplace with hdirectory | hentry
    · simp [hdirectory] at hthere
    · exact hentry
  have hbefore : d.get? place.location = none ∨
      ∃ old, d.get? place.location = some (.file old) := hentry ▸ hthere
  have hne : place.location ≠ [] := by
    intro hnil
    simp [hnil, get?_nil] at hbefore
  have hnot : place.entry ≠ some .directory := by
    intro hdirectory
    simp [hdirectory] at hthere
  have hget : (d.put place.location (.file content)).get? place.location = some (.file content) :=
    get?_put_self hne _
  have hchanges := Changes.put_file hbefore content
  have hlater := hchanges.locate hplace
  rw [Place.on, if_neg hnot, hget] at hlater
  refine ⟨place.location, locate_use_of_write hlater, hget, hchanges, _, ?_, Same.put_self hget hne⟩
  rw [write, hlater]
  rfl

end Files

/-! ## Saving -/

/-- Make a directory with all those above it, unless it is the one that the program is in. -/
def ready (d : Disk) (parent : Path) : Option IoFault × Disk :=
  if parent.bytes.isEmpty then (none, d) else d.createDirectories parent

/-- Write a listing into a directory that is there. -/
def store (d : Disk) (lines : List String) (path : Path) : Except Failure Unit × Disk :=
  match d.write path (Text.bytes (joinLines lines)) with
  | .error cause => (.error (.write path cause), d)
  | .ok written => (.ok (), written)

/-- Save a listing at a path, and make the directories that it goes into. -/
def save (d : Disk) (lines : List String) (path : Path) : Except Failure Unit × Disk :=
  match path.parent? with
  | none => d.store lines path
  | some parent =>
      match d.ready parent with
      | (none, made) => made.store lines path
      | (some cause, made) => (.error (.write parent cause), made)

/-- A location to which a proper prefix of a path leads, and where a directory is. -/
def Above (d : Disk) (path : Path) (l : Location) : Prop :=
  ∃ q ∈ path.ancestors, q.bytes <+: path.bytes ∧ q ≠ path ∧
    d.locate .use q = .ok ⟨l, some .directory⟩

section Save

variable {d made after : Disk} {directories files : Location → Prop} {lines : List String}
  {path parent : Path}

theorem Changes.above (h : Changes directories files d after) {l : Location}
    (hl : d.Above path l) : after.Above path l := by
  obtain ⟨q, hq, hprefix, hne, hplace⟩ := hl
  exact ⟨q, hq, hprefix, hne, h.locate_directory hplace⟩

/-- The paths on the way to a parent are proper prefixes of its path. -/
theorem Named.above (hparent : path.parent? = some parent) {l : Location}
    (h : d.Named parent.chain l) : d.Above path l := by
  obtain ⟨q, hq, hplace⟩ := h
  have hancestor : q ∈ parent.ancestors := (List.takeWhile_prefix _).subset hq
  have hinitial := (Path.names_of_mem_chain hq).2.2
  refine ⟨q, ?_, hinitial.trans (Path.isPrefix_of_parent? hparent), ?_, hplace⟩
  · rw [Path.ancestors_of_some hparent]
    exact List.mem_cons_of_mem path hancestor
  · rintro rfl
    have hshorter := Path.length_lt_of_parent? hparent
    have hlonger := hinitial.length_le
    omega

theorem changes_ready (hparent : path.parent? = some parent) (h : (d.ready parent).2 = made) :
    Changes (made.Above path) nowhere d made := by
  unfold ready at h
  split at h
  · exact h ▸ .refl _ _ d
  · exact (changes_made h).mono (fun _ => Named.above hparent) fun _ => id

theorem ready_of_changes (h : d.ready parent = (none, made))
    (hafter : Changes directories files made after) : after.ready parent = (none, after) := by
  unfold ready at h ⊢
  split at h
  · next hempty => rw [if_pos hempty]
  · next hempty =>
      rw [if_neg hempty]
      exact createDirectories_of_changes h hafter

/-- What storing a listing with success leaves. -/
theorem store_ok (h : d.store lines path = (.ok (), after)) :
    ∃ l, after.locate .use path = .ok ⟨l, some (.file (Text.bytes (joinLines lines)))⟩ ∧
      after.get? l = some (.file (Text.bytes (joinLines lines))) ∧
      Changes nowhere (· = l) d after ∧
      ∃ again, after.store lines path = (.ok (), again) ∧ Same after again := by
  unfold store at h
  split at h
  · simp at h
  · next written hwritten =>
      obtain ⟨-, rfl⟩ := Prod.mk.inj h
      obtain ⟨l, hplace, hget, hchanges, again, hagain, hsame⟩ := written_of_write hwritten
      exact ⟨l, hplace, hget, hchanges, again, by rw [store, hagain], hsame⟩

/-- Storing a listing fails where the file cannot be written, and changes nothing. -/
theorem store_error {failure : Failure} (h : d.store lines path = (.error failure, after)) :
    after = d ∧ ∃ cause, failure = .write path cause ∧
      d.write path (Text.bytes (joinLines lines)) = .error cause := by
  unfold store at h
  split at h
  · next cause hcause =>
      obtain ⟨hfailure, rfl⟩ := Prod.mk.inj h
      exact ⟨rfl, cause, (Except.error.inj hfailure).symm, hcause⟩
  · simp at h

/-- A listing that has been saved is in the file that its path leads to.  Nothing else has
changed but directories above it, and saving it again changes nothing. -/
theorem save_ok (h : d.save lines path = (.ok (), after)) :
    ∃ l, after.locate .use path = .ok ⟨l, some (.file (Text.bytes (joinLines lines)))⟩ ∧
      after.get? l = some (.file (Text.bytes (joinLines lines))) ∧
      Changes (after.Above path) (· = l) d after ∧
      ∃ again, after.save lines path = (.ok (), again) ∧ Same after again := by
  unfold save at h
  cases hparent : path.parent? with
  | none =>
      rw [hparent] at h
      obtain ⟨l, hplace, hget, hchanges, again, hagain, hsame⟩ := store_ok h
      refine ⟨l, hplace, hget, hchanges.mono (fun _ => False.elim) fun _ => id, again, ?_, hsame⟩
      rw [save, hparent]
      exact hagain
  | some parent =>
      simp only [hparent] at h
      split at h
      · next made hready =>
          obtain ⟨l, hplace, hget, hchanges, again, hagain, hsame⟩ := store_ok h
          have hmade := changes_ready hparent (congrArg Prod.snd hready)
          refine ⟨l, hplace, hget, ?_, again, ?_, hsame⟩
          · exact (hmade.mono (fun _ => hchanges.above) fun _ => False.elim).trans
              (hchanges.mono (fun _ => False.elim) fun _ => id)
          · rw [save, hparent]
            dsimp only
            rw [ready_of_changes hready hchanges]
            exact hagain
      · simp at h

/-- Saving a listing fails where the directory above the path cannot be made, or where the file
cannot be written.  No file has changed, and only directories above it may be new. -/
theorem save_error {failure : Failure} (h : d.save lines path = (.error failure, after)) :
    ((∃ parent cause, failure = .write parent cause ∧ path.parent? = some parent ∧
        parent.bytes ≠ [] ∧ d.createDirectories parent = (some cause, after)) ∨
      ∃ cause, failure = .write path cause ∧
        after.write path (Text.bytes (joinLines lines)) = .error cause) ∧
      Changes (after.Above path) nowhere d after := by
  unfold save at h
  cases hparent : path.parent? with
  | none =>
      rw [hparent] at h
      obtain ⟨rfl, hfault⟩ := store_error h
      exact ⟨.inr hfault, .refl _ _ after⟩
  | some parent =>
      simp only [hparent] at h
      split at h
      · next made hready =>
          obtain ⟨rfl, hfault⟩ := store_error h
          exact ⟨.inr hfault, changes_ready hparent (congrArg Prod.snd hready)⟩
      · next cause made hready =>
          obtain ⟨hfailure, rfl⟩ := Prod.mk.inj h
          refine ⟨.inl ⟨parent, cause, (Except.error.inj hfailure).symm, rfl, ?_⟩,
            changes_ready hparent (congrArg Prod.snd hready)⟩
          unfold ready at hready
          split at hready
          · simp at hready
          · next hempty => exact ⟨by simpa using hempty, hready⟩

end Save

end TreeListing.Disk
