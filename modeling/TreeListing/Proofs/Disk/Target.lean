import Mathlib.Data.List.Induction
import Mathlib.Tactic.SplitIfs
import TreeListing.Disk.Operations
import TreeListing.Proofs.Path.Names

/-!
# Where paths lead

On a disk without links a path leads where its names say, one after the other, and two dots
lead one level up: `Disk.target` reads that off the path alone.  Following a path finds
this place and what is there, or fails (`target_of_locate`).  A path that never goes up
depends only on what stands at the locations on its way (`locate_congr`).

`WellFormed` says what a disk of files and directories is: every entry stands in a
directory, and the working directory is there.
-/

namespace TreeListing.Disk

/-! ## Plain disks -/

/-- A disk that holds no links. -/
def LinkFree (d : Disk) : Prop :=
  ∀ l target, d.get? l ≠ some (.link target)

/-- Every entry stands in a directory, and so does the program. -/
structure WellFormed (d : Disk) : Prop where
  directory_of_get? : ∀ l name, d.get? (l ++ [name]) ≠ none → d.get? l = some .directory
  workingDirectory : d.get? d.workingDirectory = some .directory

theorem get?_nil (d : Disk) : d.get? [] = some .directory := by
  simp [get?]

theorem mem_of_get? {d : Disk} {l : Location} {e : Entry} (h : d.get? l = some e) :
    l = [] ∨ (l, e) ∈ d.entries := by
  unfold get? at h
  split at h
  · next hl => exact .inl (by simpa using hl)
  · exact .inr (List.lookup_eq_some_iff.mp h |>.elim fun l₁ ⟨l₂, he, _⟩ => by simp [he])

/-- Whether a disk holds no links is seen from its entries. -/
theorem linkFree_of_entries {d : Disk}
    (h : (d.entries.all fun e => !(e.2 matches .link _)) = true) : d.LinkFree := by
  intro l target hl
  rcases mem_of_get? hl with rfl | hmem
  · simp [get?_nil] at hl
  · have := List.all_eq_true.mp h _ hmem
    simp at this

/-- Whether a disk is well formed is seen from its entries. -/
theorem wellFormed_of_entries {d : Disk}
    (hentries : ∀ e ∈ d.entries, d.get? e.1.dropLast = some .directory)
    (hworking : d.get? d.workingDirectory = some .directory) : d.WellFormed where
  directory_of_get? l name h := by
    obtain ⟨e, he⟩ := Option.ne_none_iff_exists'.mp h
    rcases mem_of_get? he with hnil | hmem
    · simp at hnil
    · simpa using hentries _ hmem
  workingDirectory := hworking

/-- Above an entry there are directories. -/
theorem WellFormed.directory_above {d : Disk} (hd : d.WellFormed) {l names : Location}
    (hnames : names ≠ []) (h : d.get? (l ++ names) ≠ none) : d.get? l = some .directory := by
  induction names using List.reverseRecOn with
  | nil => exact absurd rfl hnames
  | append_singleton front last ih =>
      rw [← List.append_assoc] at h
      have hparent := hd.directory_of_get? _ _ h
      by_cases hfront : front = []
      · simpa [hfront] using hparent
      · exact ih hfront (by simp [hparent])

theorem WellFormed.get?_dropLast {d : Disk} (hd : d.WellFormed) {l : Location}
    (h : d.get? l = some .directory) : d.get? l.dropLast = some .directory := by
  rcases List.eq_nil_or_concat l with rfl | ⟨front, last, rfl⟩
  · exact h
  · rw [List.concat_eq_append] at h ⊢
    rw [List.dropLast_concat]
    exact hd.directory_of_get? front last (by simp [h])

/-! ## Targets -/

/-- The location that names lead to from another one; the parent's name leads up. -/
def along : Location → List Bytes → Location
  | here, [] => here
  | here, name :: rest => along (if name = Path.up then here.dropLast else here ++ [name]) rest

theorem along_append (here : Location) (xs ys : List Bytes) :
    along here (xs ++ ys) = along (along here xs) ys := by
  induction xs generalizing here with
  | nil => rfl
  | cons x xs ih => exact ih _

/-- Names that never lead up lead down. -/
theorem along_of_notMem_up {names : List Bytes} (h : Path.up ∉ names) (here : Location) :
    along here names = here ++ names := by
  induction names generalizing here with
  | nil => simp [along]
  | cons name rest ih =>
      rw [List.mem_cons, not_or] at h
      rw [along, if_neg (Ne.symm h.1), ih h.2, List.append_assoc, List.singleton_append]

/-- The location that a path starts from. -/
def start (d : Disk) (p : Path) : Location :=
  if p.isAbsolute then [] else d.workingDirectory

/-- The location that a path leads to on a disk without links. -/
def target (d : Disk) (p : Path) : Location :=
  along (d.start p) p.names

theorem WellFormed.get?_start {d : Disk} (hd : d.WellFormed) (p : Path) :
    d.get? (d.start p) = some .directory := by
  unfold start
  split
  · exact get?_nil d
  · exact hd.workingDirectory

/-! ## Following the parts of a path -/

section Step

variable {d : Disk} {purpose : Purpose} {follow : Location → List Bytes → Except IoFault Place}

theorem step_of_inert {part : Bytes} (h : Path.inert part = true) (here : Location)
    (rest : List Bytes) :
    d.step purpose follow here (part :: rest) = d.step purpose follow here rest := by
  rw [step, if_pos h]

theorem step_up (here : Location) (rest : List Bytes) :
    d.step purpose follow here (Path.up :: rest) = d.step purpose follow here.dropLast rest := by
  have hinert : Path.inert Path.up = false := by decide
  rw [step, if_neg (by simp [hinert]), if_pos rfl]

/-- A part that is a name is looked up. -/
theorem step_name {part : Bytes} (hinert : Path.inert part = false) (hup : part ≠ Path.up)
    (here : Location) (rest : List Bytes) :
    d.step purpose follow here (part :: rest) =
      if purpose = .write && rest.all List.isEmpty && !rest.isEmpty then .error .isDirectory
      else if nameLimit < part.length then .error .nameTooLong
      else
        let last := rest.isEmpty || purpose = .replace && rest.all List.isEmpty
        match d.get? (here ++ [part]) with
        | none => if last then .ok ⟨here ++ [part], none⟩ else .error .notFound
        | some .directory => d.step purpose follow (here ++ [part]) rest
        | some (.file content) =>
            if last then .ok ⟨here ++ [part], some (.file content)⟩ else .error .notDirectory
        | some (.link target) =>
            if last && purpose = .replace then .ok ⟨here ++ [part], some (.link target)⟩
            else follow (if target.isAbsolute then [] else here)
              (Path.split target.bytes ++ rest) := by
  rw [step, if_neg (by simp [hinert])]
  exact if_neg hup

/-- A name that is followed with success is the last one, or a directory to go on from, or
a link. -/
theorem step_name_cases {part : Bytes} {here : Location} {rest : List Bytes} {place : Place}
    (hinert : Path.inert part = false) (hup : part ≠ Path.up)
    (h : d.step purpose follow here (part :: rest) = .ok place) :
    part.length ≤ nameLimit ∧
      ((rest.isEmpty || purpose = .replace && rest.all List.isEmpty) ∧
          place = ⟨here ++ [part], d.get? (here ++ [part])⟩ ∨
        (d.get? (here ++ [part]) = some .directory ∧
          d.step purpose follow (here ++ [part]) rest = .ok place) ∨
        ∃ target, d.get? (here ++ [part]) = some (.link target) ∧
          follow (if target.isAbsolute then [] else here) (Path.split target.bytes ++ rest) =
            .ok place) := by
  rw [step_name hinert hup] at h
  split at h
  · simp at h
  · split at h
    · simp at h
    · next hlength =>
        refine ⟨Nat.not_lt.mp hlength, ?_⟩
        cases hget : d.get? (here ++ [part]) with
        | none =>
            rw [hget] at h
            dsimp only at h
            split at h
            · next hlast => exact .inl ⟨hlast, (Except.ok.inj h).symm⟩
            · simp at h
        | some entry =>
            rw [hget] at h
            cases entry with
            | file content =>
                dsimp only at h
                split at h
                · next hlast => exact .inl ⟨hlast, (Except.ok.inj h).symm⟩
                · simp at h
            | directory => exact .inr (.inl ⟨rfl, h⟩)
            | link target =>
                dsimp only at h
                split at h
                · next hlast =>
                    rw [Bool.and_eq_true] at hlast
                    exact .inl ⟨hlast.1, (Except.ok.inj h).symm⟩
                · exact .inr (.inr ⟨target, rfl, h⟩)

/-- After the last name no name is left. -/
theorem named_of_last {parts : List Bytes}
    (h : parts.isEmpty || purpose = .replace && parts.all List.isEmpty) :
    Path.named parts = [] := by
  have hall : parts.all List.isEmpty = true := by
    cases parts with
    | nil => rfl
    | cons part parts =>
        rw [List.isEmpty_cons, Bool.false_or, Bool.and_eq_true] at h
        exact h.2
  simp only [List.all_eq_true] at hall
  simp only [Path.named, List.filter_eq_nil_iff]
  intro part hpart
  simp [Path.inert, hall part hpart]

/-- Parts that name nothing stay in the directory that they start from. -/
theorem step_of_named_nil {parts : List Bytes} (h : Path.named parts = []) (here : Location) :
    d.step purpose follow here parts = .ok ⟨here, some .directory⟩ := by
  induction parts with
  | nil => rfl
  | cons part rest ih =>
      cases hinert : Path.inert part with
      | true =>
          rw [Path.named_cons_of_inert hinert] at h
          rw [step_of_inert hinert]
          exact ih h
      | false => simp [Path.named_cons_of_not_inert hinert] at h

/-- On a disk without links the parts of a path lead where its names say. -/
theorem location_of_step (hl : d.LinkFree) {parts : List Bytes} {here : Location}
    {place : Place} (h : d.step purpose follow here parts = .ok place) :
    place.location = along here (Path.named parts) ∧
      (place.entry = d.get? place.location ∨ place.entry = some .directory) := by
  induction parts generalizing here with
  | nil =>
      rw [step, Except.ok.injEq] at h
      subst h
      exact ⟨rfl, .inr rfl⟩
  | cons part rest ih =>
      cases hinert : Path.inert part with
      | true =>
          rw [step_of_inert hinert] at h
          rw [Path.named_cons_of_inert hinert]
          exact ih h
      | false =>
          rw [Path.named_cons_of_not_inert hinert]
          by_cases hup : part = Path.up
          · subst hup
            rw [step_up] at h
            rw [along, if_pos rfl]
            exact ih h
          · rw [along, if_neg hup]
            obtain ⟨_, ⟨hlast, rfl⟩ | ⟨_, hrest⟩ | ⟨target, hlink, _⟩⟩ :=
              step_name_cases hinert hup h
            · rw [named_of_last hlast]
              exact ⟨rfl, .inl rfl⟩
            · exact ih hrest
            · exact absurd hlink (hl _ _)

/-- On a disk of files and directories what is found is what is there, and where nothing is
found there is a directory to put it in. -/
theorem entry_of_step (hl : d.LinkFree) (hd : d.WellFormed) {parts : List Bytes}
    {here : Location} {place : Place} (hhere : d.get? here = some .directory)
    (h : d.step purpose follow here parts = .ok place) :
    place.entry = d.get? place.location ∧
      (place.entry = none →
        ∃ l name, place.location = l ++ [name] ∧ d.get? l = some .directory) := by
  induction parts generalizing here with
  | nil =>
      rw [step, Except.ok.injEq] at h
      subst h
      exact ⟨hhere.symm, fun hnone => by simp at hnone⟩
  | cons part rest ih =>
      cases hinert : Path.inert part with
      | true =>
          rw [step_of_inert hinert] at h
          exact ih hhere h
      | false =>
          by_cases hup : part = Path.up
          · subst hup
            rw [step_up] at h
            exact ih (hd.get?_dropLast hhere) h
          · obtain ⟨_, ⟨_, rfl⟩ | ⟨hget, hrest⟩ | ⟨target, hlink, _⟩⟩ :=
              step_name_cases hinert hup h
            · exact ⟨rfl, fun _ => ⟨here, part, rfl, hhere⟩⟩
            · exact ih hget hrest
            · exact absurd hlink (hl _ _)

/-- Parts that never lead up are followed alike on two disks that hold the same at all
locations on the way. -/
theorem step_congr {d' : Disk} {follow' : Location → List Bytes → Except IoFault Place}
    (hl : d.LinkFree) {parts : List Bytes} {here : Location}
    (hup : Path.up ∉ Path.named parts)
    (h : ∀ names, names ≠ [] → names <+: Path.named parts →
      d.get? (here ++ names) = d'.get? (here ++ names)) :
    d.step purpose follow here parts = d'.step purpose follow' here parts := by
  induction parts generalizing here with
  | nil => rfl
  | cons part rest ih =>
      cases hinert : Path.inert part with
      | true =>
          rw [Path.named_cons_of_inert hinert] at hup h
          rw [step_of_inert hinert, step_of_inert hinert]
          exact ih hup h
      | false =>
          rw [Path.named_cons_of_not_inert hinert] at hup h
          rw [List.mem_cons, not_or] at hup
          have hrest : d.step purpose follow (here ++ [part]) rest =
              d'.step purpose follow' (here ++ [part]) rest :=
            ih hup.2 fun names hnames hinitial => by
              simpa using h (part :: names) (by simp) (List.cons_prefix_cons.mpr ⟨rfl, hinitial⟩)
          have hhere := h [part] (by simp) (List.cons_prefix_cons.mpr ⟨rfl, List.nil_prefix⟩)
          have hnolink := hl (here ++ [part])
          rw [step_name hinert (Ne.symm hup.1), step_name hinert (Ne.symm hup.1), ← hhere, hrest]
          cases hget : d.get? (here ++ [part]) with
          | none => rfl
          | some entry =>
              cases entry with
              | file content => rfl
              | directory => rfl
              | link target => exact absurd hget (hnolink _)

end Step

/-! ## Following a path -/

/-- What is wrong with the bytes of a path, whatever the disk holds. -/
def pathFault? (p : Path) : Option IoFault :=
  if p.bytes.contains 0 then some .nulByte
  else if p.bytes.isEmpty then some .notFound
  else if pathLimit ≤ p.bytes.length then some .nameTooLong
  else none

/-- Following parts on a disk where no link is met. -/
def pass (d : Disk) (purpose : Purpose) : Location → List Bytes → Except IoFault Place :=
  d.step purpose fun _ _ => .error .tooManyLinks

section Locate

variable {d : Disk} {purpose : Purpose} {p : Path}

theorem step_eq_pass (hl : d.LinkFree) (follow : Location → List Bytes → Except IoFault Place)
    (here : Location) (parts : List Bytes) :
    d.step purpose follow here parts = d.pass purpose here parts := by
  induction parts generalizing here with
  | nil => rfl
  | cons part rest ih =>
      have hnolink := hl (here ++ [part])
      simp only [pass, step] at ih ⊢
      simp only [ih]
      cases hget : d.get? (here ++ [part]) with
      | none => rfl
      | some entry =>
          cases entry with
          | file content => rfl
          | directory => rfl
          | link target => exact absurd hget (hnolink _)

theorem locate_eq_walk (d : Disk) (purpose : Purpose) (p : Path) :
    d.locate purpose p = match pathFault? p with
      | some fault => .error fault
      | none => d.walk purpose linkLimit (d.start p) (Path.split p.bytes) := by
  simp only [locate, pathFault?, start]
  split_ifs <;> rfl

theorem locate_eq (hl : d.LinkFree) (purpose : Purpose) (p : Path) :
    d.locate purpose p = match pathFault? p with
      | some fault => .error fault
      | none => d.pass purpose (d.start p) (Path.split p.bytes) := by
  rw [locate_eq_walk]
  cases pathFault? p with
  | some fault => rfl
  | none => exact step_eq_pass hl _ _ _

theorem pass_of_locate (hl : d.LinkFree) {place : Place} (h : d.locate purpose p = .ok place) :
    d.pass purpose (d.start p) (Path.split p.bytes) = .ok place := by
  rw [locate_eq hl] at h
  cases hfault : pathFault? p with
  | some fault => simp [hfault] at h
  | none => simpa [hfault] using h

/-- A path leads to its target or nowhere. -/
theorem target_of_locate (hl : d.LinkFree) {place : Place}
    (h : d.locate purpose p = .ok place) :
    place.location = d.target p ∧
      (place.entry = d.get? (d.target p) ∨ place.entry = some .directory) := by
  have hplace := location_of_step hl (pass_of_locate hl h)
  rw [hplace.1] at hplace
  exact ⟨location_of_step hl (pass_of_locate hl h) |>.1, hplace.2⟩

theorem entry_of_locate (hl : d.LinkFree) (hd : d.WellFormed) {place : Place}
    (h : d.locate purpose p = .ok place) :
    place.entry = d.get? place.location ∧
      (place.entry = none →
        ∃ l name, place.location = l ++ [name] ∧ d.get? l = some .directory) :=
  entry_of_step hl hd (hd.get?_start p) (pass_of_locate hl h)

/-- A path that never leads up is followed alike on two disks that hold the same at all
locations on its way. -/
theorem locate_congr {d' : Disk} (hl : d.LinkFree) (hl' : d'.LinkFree)
    (hworking : d'.workingDirectory = d.workingDirectory) (hup : Path.up ∉ p.names)
    (h : ∀ names, names ≠ [] → names <+: p.names →
      d.get? (d.start p ++ names) = d'.get? (d.start p ++ names)) :
    d.locate purpose p = d'.locate purpose p := by
  have hstart : d'.start p = d.start p := by simp [start, hworking]
  rw [locate_eq hl, locate_eq hl', hstart]
  cases pathFault? p with
  | some fault => rfl
  | none => exact step_congr hl hup h

end Locate

end TreeListing.Disk
