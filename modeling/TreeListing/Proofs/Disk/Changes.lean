import TreeListing.Proofs.Disk.Target
import TreeListing.Proofs.Path.Parent

/-!
# What operations change

`Changes` says what has become of a disk at every location: nothing, or a directory has
been made where nothing was, or a file has been written.  What is there is never removed.
Writing a file changes its target alone (`changes_write`), and making directories makes
some at the locations that the first names of the path lead to
(`changes_createDirectories`), whether it succeeds or fails.  What several of them do to a
disk follows from what one does by `createDirectories_induction`.

A disk of files and directories stays one (`WellFormed.put`).  `Same` says that two disks
hold the same, whatever the order of their entries.
-/

namespace TreeListing.Disk

/-- From `d` to `d'` directories have been made at some locations where nothing was, files
have been written at others, and nothing else has changed. -/
structure Changes (directories files : Location → Prop) (d d' : Disk) : Prop where
  workingDirectory : d'.workingDirectory = d.workingDirectory
  entry : ∀ l, d'.get? l = d.get? l ∨
    (directories l ∧ d.get? l = none ∧ d'.get? l = some .directory) ∨
    (files l ∧ (d.get? l = none ∨ ∃ old, d.get? l = some (.file old)) ∧
      ∃ content, d'.get? l = some (.file content))

/-- No location. -/
def nowhere : Location → Prop :=
  fun _ => False

namespace Changes

variable {directories files : Location → Prop} {d d' d'' : Disk}

theorem refl (directories files : Location → Prop) (d : Disk) : Changes directories files d d :=
  ⟨rfl, fun _ => .inl rfl⟩

theorem trans (h : Changes directories files d d') (h' : Changes directories files d' d'') :
    Changes directories files d d'' where
  workingDirectory := h'.workingDirectory.trans h.workingDirectory
  entry l := by
    rcases h.entry l with hsame | ⟨hl, hbefore, hafter⟩ | ⟨hl, hbefore, content, hafter⟩
    · simpa only [hsame] using h'.entry l
    · -- a directory that has been made stays
      rcases h'.entry l with hsame | ⟨_, hnone, _⟩ | ⟨_, hnone | ⟨old, hold⟩, _⟩
      · exact .inr (.inl ⟨hl, hbefore, hsame.trans hafter⟩)
      · simp [hafter] at hnone
      · simp [hafter] at hnone
      · simp [hafter] at hold
    · rcases h'.entry l with hsame | ⟨_, hnone, _⟩ | ⟨_, _, again⟩
      · exact .inr (.inr ⟨hl, hbefore, content, hsame.trans hafter⟩)
      · simp [hafter] at hnone
      · exact .inr (.inr ⟨hl, hbefore, again⟩)

theorem mono {directories' files' : Location → Prop} (h : Changes directories files d d')
    (hdirectories : ∀ l, directories l → directories' l) (hfiles : ∀ l, files l → files' l) :
    Changes directories' files' d d' where
  workingDirectory := h.workingDirectory
  entry l := (h.entry l).imp_right <|
    Or.imp (And.imp_left (hdirectories l)) (And.imp_left (hfiles l))

/-- Forget where something has changed. -/
theorem somewhere (h : Changes directories files d d') :
    Changes (fun _ => True) (fun _ => True) d d' :=
  h.mono (fun _ _ => trivial) fun _ _ => trivial

theorem linkFree (h : Changes directories files d d') (hl : d.LinkFree) : d'.LinkFree := by
  intro l target
  rcases h.entry l with hsame | ⟨_, _, hafter⟩ | ⟨_, _, content, hafter⟩
  · rw [hsame]
    exact hl l target
  · simp [hafter]
  · simp [hafter]

/-- What is a directory stays one. -/
theorem directory (h : Changes directories files d d') {l : Location}
    (hl : d.get? l = some .directory) : d'.get? l = some .directory := by
  rcases h.entry l with hsame | ⟨_, hnone, _⟩ | ⟨_, hnone | ⟨old, hold⟩, _⟩
  · rw [hsame, hl]
  · simp [hl] at hnone
  · simp [hl] at hnone
  · simp [hl] at hold

theorem start (h : Changes directories files d d') (p : Path) : d'.start p = d.start p := by
  rw [Disk.start, Disk.start, h.workingDirectory]

theorem target (h : Changes directories files d d') (p : Path) : d'.target p = d.target p := by
  rw [Disk.target, Disk.target, h.start]

/-- A file that has not been written has been there with the same content. -/
theorem file_iff (h : Changes directories files d d') {l : Location} (hl : ¬ files l)
    (content : Bytes) : d'.get? l = some (.file content) ↔ d.get? l = some (.file content) := by
  rcases h.entry l with hsame | ⟨_, hnone, hafter⟩ | ⟨hfile, _⟩
  · rw [hsame]
  · simp [hnone, hafter]
  · exact absurd hfile hl

/-- Where no directory is made and no file written, nothing has changed. -/
theorem entry_of_not (h : Changes nowhere files d d') {l : Location} (hl : ¬ files l) :
    d'.get? l = d.get? l := by
  rcases h.entry l with hsame | ⟨hnowhere, _⟩ | ⟨hfile, _⟩
  · exact hsame
  · exact hnowhere.elim
  · exact absurd hfile hl

theorem put_directory {l : Location} (h : d.get? l = none) :
    Changes (· = l) nowhere d (d.put l .directory) where
  workingDirectory := rfl
  entry m := by
    have hl : l ≠ [] := by
      rintro rfl
      simp [get?_nil] at h
    by_cases hm : m = l
    · subst hm
      exact .inr (.inl ⟨rfl, h, get?_put_self hl _⟩)
    · exact .inl (get?_put_of_ne hm _)

theorem put_file {l : Location} (h : d.get? l = none ∨ ∃ old, d.get? l = some (.file old))
    (content : Bytes) : Changes nowhere (· = l) d (d.put l (.file content)) where
  workingDirectory := rfl
  entry m := by
    have hl : l ≠ [] := by
      rintro rfl
      simp [get?_nil] at h
    by_cases hm : m = l
    · subst hm
      exact .inr (.inr ⟨rfl, h, content, get?_put_self hl _⟩)
    · exact .inl (get?_put_of_ne hm _)

end Changes

/-! ## Disks that hold the same -/

/-- Two disks hold the same at every location, in whatever order. -/
structure Same (d d' : Disk) : Prop where
  workingDirectory : d'.workingDirectory = d.workingDirectory
  entry : ∀ l, d'.get? l = d.get? l

namespace Same

variable {d d' d'' : Disk}

theorem refl (d : Disk) : Same d d :=
  ⟨rfl, fun _ => rfl⟩

theorem symm (h : Same d d') : Same d' d :=
  ⟨h.workingDirectory.symm, fun l => (h.entry l).symm⟩

theorem trans (h : Same d d') (h' : Same d' d'') : Same d d'' :=
  ⟨h'.workingDirectory.trans h.workingDirectory, fun l => (h'.entry l).trans (h.entry l)⟩

theorem changes (h : Same d d') (directories files : Location → Prop) :
    Changes directories files d d' :=
  ⟨h.workingDirectory, fun l => .inl (h.entry l)⟩

theorem wellFormed (h : Same d d') (hd : d.WellFormed) : d'.WellFormed where
  directory_of_get? l name hl := by
    rw [h.entry] at hl ⊢
    exact hd.directory_of_get? l name hl
  workingDirectory := by
    rw [h.workingDirectory, h.entry]
    exact hd.workingDirectory

theorem put (h : Same d d') (l : Location) (e : Entry) : Same (d.put l e) (d'.put l e) where
  workingDirectory := h.workingDirectory
  entry m := by
    by_cases hm : m = l
    · subst hm
      cases m with
      | nil => simp [get?_nil]
      | cons name rest => rw [get?_put_self (by simp), get?_put_self (by simp)]
    · rw [get?_put_of_ne hm, get?_put_of_ne hm, h.entry]

/-- Putting in place what is there changes nothing. -/
theorem put_self {l : Location} {e : Entry} (h : d.get? l = some e) (hl : l ≠ []) :
    Same d (d.put l e) where
  workingDirectory := rfl
  entry m := by
    by_cases hm : m = l
    · rw [hm, get?_put_self hl, h]
    · exact get?_put_of_ne hm e

end Same

/-! ## Single operations -/

section Operations

variable {d : Disk} {p : Path}

/-- A disk stays well formed when something is put into a directory, but not in place of a
directory. -/
theorem WellFormed.put (hd : d.WellFormed) {l : Location} {name : Bytes}
    (hparent : d.get? l = some .directory) (hthere : d.get? (l ++ [name]) ≠ some .directory)
    (e : Entry) : (d.put (l ++ [name]) e).WellFormed where
  directory_of_get? m other h := by
    by_cases hm : m ++ [other] = l ++ [name]
    · have hsame : m = l := (List.append_inj' hm rfl).1
      rw [hsame, get?_put_of_ne (by simp)]
      exact hparent
    · rw [get?_put_of_ne hm] at h
      have hdirectory := hd.directory_of_get? m other h
      have hne : m ≠ l ++ [name] := by
        rintro rfl
        exact hthere hdirectory
      rw [get?_put_of_ne hne]
      exact hdirectory
  workingDirectory := by
    have hne : d.workingDirectory ≠ l ++ [name] := by
      intro h
      exact hthere (h ▸ hd.workingDirectory)
    exact (get?_put_of_ne hne e).trans hd.workingDirectory

theorem exists_of_createDirectory {made : Disk} (h : d.createDirectory p = .ok made) :
    ∃ place, d.locate .replace p = .ok place ∧ place.entry = none ∧
      made = d.put place.location .directory := by
  unfold createDirectory create at h
  cases hplace : d.locate .replace p with
  | error fault => simp [hplace, bind, Except.bind] at h
  | ok place =>
      simp only [hplace, bind, Except.bind] at h
      cases hentry : place.entry with
      | none =>
          rw [hentry] at h
          exact ⟨place, rfl, hentry, (Except.ok.inj h).symm⟩
      | some entry => simp [hentry] at h

theorem exists_of_write {content : Bytes} {written : Disk}
    (h : d.write p content = .ok written) :
    ∃ place, d.locate .write p = .ok place ∧
      (place.entry = none ∨ ∃ old, place.entry = some (.file old)) ∧
      written = d.put place.location (.file content) := by
  unfold write at h
  cases hplace : d.locate .write p with
  | error fault => simp [hplace, bind, Except.bind] at h
  | ok place =>
      simp only [hplace, bind, Except.bind] at h
      cases hentry : place.entry with
      | none =>
          rw [hentry] at h
          exact ⟨place, rfl, .inl hentry, (Except.ok.inj h).symm⟩
      | some entry =>
          rw [hentry] at h
          cases entry with
          | file old => exact ⟨place, rfl, .inr ⟨old, hentry⟩, (Except.ok.inj h).symm⟩
          | directory => simp at h
          | link target => simp at h

/-- Whether a file can be written depends on where its path leads. -/
theorem write_congr {d' : Disk} (h : d'.locate .write p = d.locate .write p) (content : Bytes) :
    (∃ fault, d.write p content = .error fault ∧ d'.write p content = .error fault) ∨
      ∃ written written', d.write p content = .ok written ∧ d'.write p content = .ok written' := by
  rw [write, write, h]
  rcases d.locate .write p with fault | ⟨l, _ | _ | _ | _⟩
  · exact .inl ⟨fault, rfl, rfl⟩
  · exact .inr ⟨_, _, rfl, rfl⟩
  · exact .inr ⟨_, _, rfl, rfl⟩
  · exact .inl ⟨_, rfl, rfl⟩
  · exact .inl ⟨_, rfl, rfl⟩

/-- A new directory stands at the target of its path. -/
theorem changes_createDirectory (hl : d.LinkFree) {made : Disk}
    (h : d.createDirectory p = .ok made) : Changes (· = d.target p) nowhere d made := by
  obtain ⟨place, hplace, hnone, rfl⟩ := exists_of_createDirectory h
  obtain ⟨hlocation, hentry⟩ := target_of_locate hl hplace
  rw [hlocation]
  refine Changes.put_directory ?_
  rcases hentry with hentry | hentry
  · rw [← hentry, hnone]
  · simp [hnone] at hentry

/-- A written file stands at the target of its path. -/
theorem changes_write (hl : d.LinkFree) {content : Bytes} {written : Disk}
    (h : d.write p content = .ok written) :
    Changes nowhere (· = d.target p) d written ∧
      written.get? (d.target p) = some (.file content) := by
  obtain ⟨place, hplace, hthere, rfl⟩ := exists_of_write h
  obtain ⟨hlocation, hentry⟩ := target_of_locate hl hplace
  have hbefore : d.get? (d.target p) = none ∨ ∃ old, d.get? (d.target p) = some (.file old) := by
    rcases hentry with hentry | hentry
    · rwa [← hentry]
    · simp [hentry] at hthere
  have hne : d.target p ≠ [] := by
    intro hnil
    simp [hnil, get?_nil] at hbefore
  rw [hlocation]
  exact ⟨Changes.put_file hbefore content, get?_put_self hne _⟩

theorem WellFormed.createDirectory (hd : d.WellFormed) (hl : d.LinkFree) {made : Disk}
    (h : d.createDirectory p = .ok made) : made.WellFormed := by
  obtain ⟨place, hplace, hnone, rfl⟩ := exists_of_createDirectory h
  obtain ⟨hentry, hparent⟩ := entry_of_locate hl hd hplace
  obtain ⟨l, name, hlocation, hget⟩ := hparent hnone
  rw [hlocation] at hentry ⊢
  exact hd.put hget (by simp [← hentry, hnone]) _

theorem WellFormed.write (hd : d.WellFormed) (hl : d.LinkFree) {content : Bytes}
    {written : Disk} (h : d.write p content = .ok written) : written.WellFormed := by
  obtain ⟨place, hplace, hthere, rfl⟩ := exists_of_write h
  obtain ⟨hentry, hparent⟩ := entry_of_locate hl hd hplace
  have hget : ∃ l name, place.location = l ++ [name] ∧ d.get? l = some .directory := by
    rcases hthere with hnone | ⟨old, hold⟩
    · exact hparent hnone
    · rcases List.eq_nil_or_concat place.location with hnil | ⟨l, name, hlocation⟩
      · rw [hnil, get?_nil, hold] at hentry
        simp at hentry
      · rw [List.concat_eq_append] at hlocation
        have habove := hd.directory_of_get? l name (by simp [← hlocation, ← hentry, hold])
        exact ⟨l, name, hlocation, habove⟩
  obtain ⟨l, name, hlocation, hdirectory⟩ := hget
  rw [hlocation] at hentry ⊢
  refine hd.put hdirectory ?_ _
  rw [← hentry]
  rcases hthere with hnone | ⟨old, hold⟩
  · simp [hnone]
  · simp [hold]

/-! ## Making several directories -/

section Making

variable {R : Disk → Disk → Prop} {paths : List Path} (hrefl : ∀ e, R e e)
  (htrans : ∀ {e e' e''}, R e e' → R e' e'' → R e e'')
  (hmake : ∀ {e made q}, q ∈ paths → e.createDirectory q = .ok made → R e made)

/-- The climb leaves the paths that were missing before it, and those that it has passed. -/
theorem subset_of_climb {missing outer rest : List Path} {made : Disk}
    (h : d.climb missing outer = .ok (rest, made)) :
    missing ⊆ rest ∧ rest ⊆ outer ++ missing := by
  induction outer generalizing missing with
  | nil =>
      rw [climb, Except.ok.injEq, Prod.mk.injEq] at h
      exact ⟨h.1 ▸ List.Subset.refl _, h.1 ▸ by simp⟩
  | cons q outer ih =>
      rw [climb] at h
      split at h
      · rw [Except.ok.injEq, Prod.mk.injEq] at h
        exact ⟨h.1 ▸ List.Subset.refl _, h.1 ▸ by simp⟩
      · obtain ⟨hbefore, hafter⟩ := ih h
        refine ⟨fun x hx => hbefore (List.mem_cons_of_mem q hx), fun x hx => ?_⟩
        have := hafter hx
        simp only [List.mem_append, List.mem_cons] at this ⊢
        tauto
      · split at h
        · rw [Except.ok.injEq, Prod.mk.injEq] at h
          exact ⟨h.1 ▸ List.Subset.refl _, h.1 ▸ by simp⟩
        · simp at h
      · simp at h

include hrefl hmake

theorem climb_induction {missing outer rest : List Path} {made : Disk} (houter : outer ⊆ paths)
    (h : d.climb missing outer = .ok (rest, made)) : R d made := by
  induction outer generalizing missing with
  | nil =>
      rw [climb, Except.ok.injEq, Prod.mk.injEq] at h
      exact h.2 ▸ hrefl d
  | cons q outer ih =>
      have hq : q ∈ paths := houter List.mem_cons_self
      rw [climb] at h
      split at h
      · next hmade =>
          rw [Except.ok.injEq, Prod.mk.injEq] at h
          exact h.2 ▸ hmake hq hmade
      · exact ih (fun x hx => houter (List.mem_cons_of_mem q hx)) h
      · split at h
        · rw [Except.ok.injEq, Prod.mk.injEq] at h
          exact h.2 ▸ hrefl d
        · simp at h
      · simp at h

include htrans

theorem createAll_induction {todo : List Path} (htodo : todo ⊆ paths) :
    R d (d.createAll todo).2 := by
  induction todo generalizing d with
  | nil => exact hrefl d
  | cons q rest ih =>
      have hrest : rest ⊆ paths := fun x hx => htodo (List.mem_cons_of_mem q hx)
      rw [createAll]
      split
      · next made hmade => exact htrans (hmake (htodo List.mem_cons_self) hmade) (ih hrest)
      · split
        · exact ih hrest
        · exact hrefl d
      · exact hrefl d

/-- What holds from a disk to itself, from one over another to a third, and over each directory
that is made on a path, holds over making them all. -/
theorem createDirectories_induction (hpaths : p.chain ⊆ paths) :
    R d (d.createDirectories p).2 := by
  unfold createDirectories
  rw [← Path.chain]
  split
  · next missing made hclimb =>
      have hmissing := (subset_of_climb hclimb).2
      rw [List.append_nil] at hmissing
      exact htrans (climb_induction hrefl hmake hpaths hclimb)
        (createAll_induction hrefl htrans hmake (List.Subset.trans hmissing hpaths))
  · exact hrefl d

end Making

/-- Making directories keeps a disk well formed and free of links, and makes only
directories at the targets of their paths. -/
structure Grown (d : Disk) (paths : List Path) (d' : Disk) : Prop where
  changes : Changes (fun l => ∃ q ∈ paths, l = d.target q) nowhere d d'
  wellFormed : d.WellFormed → d'.WellFormed

theorem Grown.trans {d' d'' : Disk} {paths : List Path} (h : Grown d paths d')
    (h' : Grown d' paths d'') : Grown d paths d'' where
  changes := h.changes.trans <| h'.changes.mono
    (fun l hl => by simpa only [h.changes.target] using hl) (fun _ => id)
  wellFormed hd := h'.wellFormed (h.wellFormed hd)

theorem grown_createDirectories (hl : d.LinkFree) (p : Path) :
    Grown d p.chain (d.createDirectories p).2 := by
  refine createDirectories_induction (R := fun e e' => e.LinkFree → Grown e p.chain e')
    (fun e _ => ⟨.refl _ _ e, id⟩) (fun h h' he => ?_) (fun hq hmade he => ?_)
    (List.Subset.refl _) hl
  · exact (h he).trans (h' ((h he).changes.linkFree he))
  · exact ⟨(changes_createDirectory he hmade).mono (fun _ hm => ⟨_, hq, hm⟩) (fun _ => id),
      fun hd => hd.createDirectory he hmade⟩

/-- The locations that the first names of a path lead to. -/
def onWayTo (d : Disk) (p : Path) (l : Location) : Prop :=
  ∃ names, names <+: p.names ∧ l = along (d.start p) names

/-- Making a directory with all those above it makes directories on the way to it, and
nothing else, whether it succeeds or fails. -/
theorem changes_createDirectories (hl : d.LinkFree) {p : Path} {fault : Option IoFault}
    {made : Disk} (h : d.createDirectories p = (fault, made)) :
    Changes (d.onWayTo p) nowhere d made := by
  have hgrown := grown_createDirectories hl p
  rw [h] at hgrown
  refine hgrown.changes.mono (fun l hon => ?_) (fun _ => id)
  obtain ⟨q, hq, hl⟩ := hon
  obtain ⟨hnames, habsolute, _⟩ := Path.names_of_mem_chain hq
  exact ⟨q.names, hnames, by rw [hl, Disk.target, start, start, habsolute]⟩

theorem WellFormed.createDirectories (hd : d.WellFormed) (hl : d.LinkFree) {p : Path}
    {fault : Option IoFault} {made : Disk} (h : d.createDirectories p = (fault, made)) :
    made.WellFormed := by
  have hgrown := grown_createDirectories hl p
  rw [h] at hgrown
  exact hgrown.wellFormed hd

end Operations

end TreeListing.Disk
