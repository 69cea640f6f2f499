import TreeListing.Proofs.Disk.Links
import TreeListing.Proofs.Disk.Making

/-!
# Reading files

What is read at the end of a path is the content of the file at its target
(`get?_of_content?`), and for a path that never leads up it depends on nothing else
(`content?_congr`): the directories on its way are there because the file is.

What has been written is read back, also on a disk that has changed since then, as long as
the file at the target has that content (`content?_of_write`).
-/

namespace TreeListing.Disk

/-- The content of the file at the end of a path, if there is one. -/
def content? (d : Disk) (p : Path) : Option Bytes :=
  match d.find? p with
  | some (.file content) => some content
  | _ => none

section Content

variable {d : Disk} {p : Path} {content : Bytes}

theorem isFile_eq (d : Disk) (p : Path) : d.isFile p = (d.content? p).isSome := by
  unfold isFile content?
  rcases d.find? p with _ | _ | _ | _ <;> rfl

theorem content?_eq_some_iff :
    d.content? p = some content ↔ ∃ l, d.locate .use p = .ok ⟨l, some (.file content)⟩ := by
  unfold content? find?
  rcases d.locate .use p with fault | ⟨l, _ | _ | _ | _⟩ <;> simp

theorem read_of_content? (h : d.content? p = some content) : d.read p = .ok content := by
  obtain ⟨l, hl⟩ := content?_eq_some_iff.mp h
  rw [read, hl]
  rfl

theorem content?_of_read (h : d.read p = .ok content) : d.content? p = some content := by
  rw [content?_eq_some_iff]
  unfold read at h
  cases hlocate : d.locate .use p with
  | error fault => simp [hlocate, bind, Except.bind] at h
  | ok place =>
      obtain ⟨l, _ | held | _ | target⟩ := place
      all_goals simp only [hlocate, bind, Except.bind, Except.ok.injEq, reduceCtorEq] at h
      rw [h]
      exact ⟨l, rfl⟩

theorem readText_of_content? (h : d.content? p = some content) :
    d.readText p = match Text.ofBytes? content with
      | some text => .ok text
      | none => .error .notText := by
  rw [readText, read_of_content? h]
  rfl

/-- There is no file at the end of a path, or a file that holds no text, or one that does. -/
theorem file_cases (d : Disk) (p : Path) :
    (d.isFile p = false ∧ (∀ content, d.read p ≠ .ok content) ∧
      ∀ text, d.readText p ≠ .ok text) ∨
    (∃ content, d.isFile p = true ∧ d.read p = .ok content ∧ Text.ofBytes? content = none ∧
      d.readText p = .error .notText) ∨
    ∃ content text, d.isFile p = true ∧ d.read p = .ok content ∧
      Text.ofBytes? content = some text ∧ d.readText p = .ok text := by
  rw [isFile_eq]
  cases hcontent : d.content? p with
  | none =>
      have hread : ∀ content, d.read p ≠ .ok content := fun content hread => by
        rw [content?_of_read hread] at hcontent
        simp at hcontent
      refine .inl ⟨rfl, hread, fun text htext => ?_⟩
      cases hread' : d.read p with
      | error cause => simp [readText, hread', bind, Except.bind] at htext
      | ok content => exact hread content hread'
  | some content =>
      have htext := readText_of_content? hcontent
      refine .inr ?_
      cases hdecoded : Text.ofBytes? content with
      | none =>
          rw [hdecoded] at htext
          exact .inl ⟨content, rfl, read_of_content? hcontent, hdecoded, htext⟩
      | some text =>
          rw [hdecoded] at htext
          exact .inr ⟨content, text, rfl, read_of_content? hcontent, hdecoded, htext⟩

/-- The path of a file has a parent, since a path without one names nothing. -/
theorem parent?_of_isFile (h : d.isFile p = true) : ∃ above, p.parent? = some above := by
  rw [← Option.ne_none_iff_exists']
  intro hnone
  rw [isFile_eq, Option.isSome_iff_exists] at h
  obtain ⟨content, hcontent⟩ := h
  obtain ⟨l, hlocate⟩ := content?_eq_some_iff.mp hcontent
  unfold locate at hlocate
  split at hlocate
  · cases hlocate
  · split at hlocate
    · cases hlocate
    · split at hlocate
      · cases hlocate
      · rw [linkLimit, walk, step_of_named_nil (Path.names_of_parent?_none hnone)] at hlocate
        simp at hlocate

/-- The content of a file is that of its target. -/
theorem get?_of_content? (hl : d.LinkFree) (h : d.content? p = some content) :
    d.get? (d.target p) = some (.file content) := by
  obtain ⟨l, hlocate⟩ := content?_eq_some_iff.mp h
  obtain ⟨hlocation, hentry | hentry⟩ := target_of_locate hl hlocate
  · exact hentry.symm
  · simp at hentry

/-- A path that leads to a file leads to it on every disk that holds that file. -/
theorem content?_of_get? {d' : Disk} (hl : d.LinkFree) (hd : d.WellFormed) (hl' : d'.LinkFree)
    (hd' : d'.WellFormed) (hworking : d'.workingDirectory = d.workingDirectory)
    (hup : Path.up ∉ p.names) (h : d.content? p = some content)
    (h' : d'.get? (d.target p) = some (.file content)) : d'.content? p = some content := by
  have htarget : d.target p = d.start p ++ p.names := along_of_notMem_up hup _
  have hhere := get?_of_content? hl h
  rw [htarget] at h' hhere
  obtain ⟨l, hlocate⟩ := content?_eq_some_iff.mp h
  refine content?_eq_some_iff.mpr ⟨l, ?_⟩
  rw [← hlocate]
  refine (locate_congr hl hl' hworking hup fun names _ hinitial => ?_).symm
  obtain ⟨below, hbelow⟩ := hinitial
  rw [← hbelow, ← List.append_assoc] at h' hhere
  by_cases hlast : below = []
  · rw [hlast, List.append_nil] at h' hhere
    rw [h', hhere]
  · rw [hd.directory_above hlast (Option.ne_none_iff_exists'.mpr ⟨_, hhere⟩),
      hd'.directory_above hlast (Option.ne_none_iff_exists'.mpr ⟨_, h'⟩)]

/-- What is read at the end of a path that never leads up depends on the file at its target
alone. -/
theorem content?_congr {d' : Disk} (hl : d.LinkFree) (hd : d.WellFormed) (hl' : d'.LinkFree)
    (hd' : d'.WellFormed) (hworking : d'.workingDirectory = d.workingDirectory)
    (hup : Path.up ∉ p.names)
    (h : ∀ content, d'.get? (d.target p) = some (.file content) ↔
      d.get? (d.target p) = some (.file content)) : d'.content? p = d.content? p := by
  have htarget : d'.target p = d.target p := by simp [target, start, hworking]
  refine Option.ext fun content => ⟨fun h' => ?_, fun h' => ?_⟩
  · have hfile := get?_of_content? hl' h'
    refine content?_of_get? hl' hd' hl hd hworking.symm hup h' ?_
    rw [htarget] at hfile ⊢
    exact (h content).mp hfile
  · exact content?_of_get? hl hd hl' hd' hworking hup h' ((h content).mpr (get?_of_content? hl h'))

end Content

/-! ## Reading what has been written -/

section Written

variable {d d' : Disk} {p : Path} {content : Bytes} {directories files : Location → Prop}
  (hl : d.LinkFree) (hafter : Changes directories files d d')
  (hget : d'.get? (d.target p) = some (.file content))

include hl hafter hget

/-- A path that leads to a file, or to where one can be put, leads to the file that is there
later. -/
theorem content?_of_locate {purpose : Purpose} (hpurpose : purpose ≠ .replace) {place : Place}
    (h : d.locate purpose p = .ok place)
    (hplace : place.entry = none ∨ ∃ old, place.entry = some (.file old)) :
    d'.content? p = some content := by
  have hlocation := (target_of_locate hl h).1
  have hnot : place.entry ≠ some .directory := by
    intro hdirectory
    simp [hdirectory] at hplace
  have hlater := hafter.locate h
  rw [Place.on, if_neg hnot, hlocation, hget] at hlater
  refine content?_eq_some_iff.mpr ⟨d.target p, ?_⟩
  cases purpose with
  | use => exact hlater
  | write => exact locate_use_of_write hlater
  | replace => exact absurd rfl hpurpose

/-- What has been read is read again as long as the file keeps that content. -/
theorem content?_of_content? {first : Bytes} (h : d.content? p = some first) :
    d'.content? p = some content := by
  obtain ⟨l, hplace⟩ := content?_eq_some_iff.mp h
  exact content?_of_locate hl hafter hget (by decide) hplace (.inr ⟨first, rfl⟩)

/-- What has been written is read back as long as the file keeps that content. -/
theorem content?_of_write {first : Bytes} {written : Disk} (h : d.write p first = .ok written) :
    d'.content? p = some content := by
  obtain ⟨place, hplace, hthere, -⟩ := exists_of_write h
  exact content?_of_locate hl hafter hget (by decide) hplace hthere

end Written

end TreeListing.Disk
