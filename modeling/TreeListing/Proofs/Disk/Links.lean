import TreeListing.Proofs.Disk.Changes

/-!
# Paths on a disk with links

`Leads` says by rules where the parts of a path lead, over how many links at most, and
`locate_eq_ok_iff` says that following a path comes to this.

What a path leads to depends on the links and directories on its way, and those stay when
directories are made and files are written.  So a path leads to the same location again, and
finds there what is there now (`Changes.locate`).  A path that leads to a place for a new
directory, or for a file to be written, leads to the same place when it is used
(`locate_use_of_replace`, `locate_use_of_write`).
-/

namespace TreeListing.Disk

/-- Nothing but separators follows a name that a path leads to. -/
def atEnd (purpose : Purpose) (rest : List Bytes) : Bool :=
  rest.isEmpty || purpose = .replace && rest.all List.isEmpty

/-- No file is written where separators follow its name. -/
def barred (purpose : Purpose) (rest : List Bytes) : Bool :=
  purpose = .write && rest.all List.isEmpty && !rest.isEmpty

/-- A part with this rest behind it is looked up. -/
structure IsName (purpose : Purpose) (part : Bytes) (rest : List Bytes) : Prop where
  notInert : Path.inert part = false
  notUp : part ≠ Path.up
  notBarred : barred purpose rest = false
  length_le : part.length ≤ nameLimit

/-- The parts lead from a location to a place, over at most as many links. -/
inductive Leads (d : Disk) (purpose : Purpose) : Nat → Location → List Bytes → Place → Prop where
  | stay (n : Nat) (here : Location) : Leads d purpose n here [] ⟨here, some .directory⟩
  | inert {n : Nat} {here : Location} {part : Bytes} {rest : List Bytes} {place : Place}
      (hpart : Path.inert part = true) (h : Leads d purpose n here rest place) :
      Leads d purpose n here (part :: rest) place
  | up {n : Nat} {here : Location} {rest : List Bytes} {place : Place}
      (h : Leads d purpose n here.dropLast rest place) :
      Leads d purpose n here (Path.up :: rest) place
  | last {n : Nat} {here : Location} {part : Bytes} {rest : List Bytes}
      (hname : IsName purpose part rest) (hend : atEnd purpose rest = true)
      (hlink : ∀ target, d.get? (here ++ [part]) = some (.link target) → purpose = .replace) :
      Leads d purpose n here (part :: rest) ⟨here ++ [part], d.get? (here ++ [part])⟩
  | enter {n : Nat} {here : Location} {part : Bytes} {rest : List Bytes} {place : Place}
      (hname : IsName purpose part rest) (hget : d.get? (here ++ [part]) = some .directory)
      (h : Leads d purpose n (here ++ [part]) rest place) :
      Leads d purpose n here (part :: rest) place
  | link {n : Nat} {here : Location} {part : Bytes} {rest : List Bytes} {place : Place}
      {target : Path} (hname : IsName purpose part rest)
      (hget : d.get? (here ++ [part]) = some (.link target))
      (hon : purpose = .replace → atEnd purpose rest = false)
      (h : Leads d purpose n (if target.isAbsolute then [] else here)
        (Path.split target.bytes ++ rest) place) :
      Leads d purpose (n + 1) here (part :: rest) place

/-! ## Following is being led -/

section Leads

variable {d : Disk} {purpose : Purpose} {n : Nat} {here : Location} {parts : List Bytes}
  {place : Place} {follow : Location → List Bytes → Except IoFault Place}

theorem step_isName {part : Bytes} {rest : List Bytes} (hname : IsName purpose part rest) :
    d.step purpose follow here (part :: rest) =
      match d.get? (here ++ [part]) with
      | none => if atEnd purpose rest then .ok ⟨here ++ [part], none⟩ else .error .notFound
      | some .directory => d.step purpose follow (here ++ [part]) rest
      | some (.file content) =>
          if atEnd purpose rest then .ok ⟨here ++ [part], some (.file content)⟩
          else .error .notDirectory
      | some (.link target) =>
          if atEnd purpose rest && purpose = .replace then
            .ok ⟨here ++ [part], some (.link target)⟩
          else follow (if target.isAbsolute then [] else here)
            (Path.split target.bytes ++ rest) := by
  have hbarred := hname.notBarred
  unfold barred at hbarred
  rw [step_name hname.notInert hname.notUp, hbarred, if_neg Bool.false_ne_true,
    if_neg (Nat.not_lt.mpr hname.length_le)]
  rfl

theorem isName_of_step {part : Bytes} {rest : List Bytes} (hinert : Path.inert part = false)
    (hup : part ≠ Path.up) (h : d.step purpose follow here (part :: rest) = .ok place) :
    IsName purpose part rest := by
  rw [step_name hinert hup] at h
  split at h
  · simp at h
  · next hbarred =>
      split at h
      · simp at h
      · next hlength =>
          exact ⟨hinert, hup, Bool.eq_false_iff.mpr hbarred, Nat.not_lt.mp hlength⟩

/-- What is followed with success leads to the place that is found. -/
theorem leads_of_step
    (hfollow : ∀ here parts, follow here parts = .ok place →
      ∃ m, n = m + 1 ∧ d.Leads purpose m here parts place)
    (h : d.step purpose follow here parts = .ok place) : d.Leads purpose n here parts place := by
  induction parts generalizing here with
  | nil =>
      rw [step, Except.ok.injEq] at h
      exact h ▸ .stay n here
  | cons part rest ih =>
      cases hinert : Path.inert part with
      | true =>
          rw [step_of_inert hinert] at h
          exact .inert hinert (ih h)
      | false =>
          by_cases hup : part = Path.up
          · subst hup
            rw [step_up] at h
            exact .up (ih h)
          · have hname := isName_of_step hinert hup h
            have hlast : atEnd purpose rest = true →
                (∀ target, d.get? (here ++ [part]) = some (.link target) → purpose = .replace) →
                d.Leads purpose n here (part :: rest) ⟨here ++ [part], d.get? (here ++ [part])⟩ :=
              .last hname
            rw [step_isName hname] at h
            cases hget : d.get? (here ++ [part]) with
            | none =>
                rw [hget] at h hlast
                dsimp only at h
                split at h
                · next hend => exact Except.ok.inj h ▸ hlast hend (by simp)
                · simp at h
            | some entry =>
                rw [hget] at h hlast
                cases entry with
                | file content =>
                    dsimp only at h
                    split at h
                    · next hend => exact Except.ok.inj h ▸ hlast hend (by simp)
                    · simp at h
                | directory => exact .enter hname hget (ih h)
                | link target =>
                    dsimp only at h
                    split at h
                    · next hend =>
                        rw [Bool.and_eq_true, decide_eq_true_eq] at hend
                        exact Except.ok.inj h ▸ hlast hend.1 fun _ _ => hend.2
                    · next hend =>
                        obtain ⟨m, rfl, hrest⟩ := hfollow _ _ h
                        refine .link hname hget (fun hreplace => ?_) hrest
                        simpa [hreplace] using hend

theorem leads_of_walk (h : d.walk purpose n here parts = .ok place) :
    d.Leads purpose n here parts place := by
  induction n generalizing here parts with
  | zero =>
      refine leads_of_step (fun here parts hfollow => ?_) h
      simp at hfollow
  | succ n ih =>
      refine leads_of_step (fun here parts hfollow => ⟨n, rfl, ih hfollow⟩) h

theorem walk_eq_step (d : Disk) (purpose : Purpose) (n : Nat) :
    ∃ follow, d.walk purpose n = d.step purpose follow ∧
      ∀ m, n = m + 1 → follow = d.walk purpose m := by
  cases n with
  | zero => exact ⟨_, rfl, by simp⟩
  | succ n => exact ⟨_, rfl, fun m h => by rw [Nat.succ.inj h]⟩

/-- Where parts lead is found when they are followed. -/
theorem Leads.walk_eq (h : d.Leads purpose n here parts place) :
    d.walk purpose n here parts = .ok place := by
  induction h with
  | stay n here =>
      obtain ⟨follow, hwalk, -⟩ := walk_eq_step d purpose n
      rw [hwalk, step]
  | @inert n here part rest place hpart _ ih =>
      obtain ⟨follow, hwalk, -⟩ := walk_eq_step d purpose n
      rw [hwalk] at ih ⊢
      rw [step_of_inert hpart, ih]
  | @up n here rest place _ ih =>
      obtain ⟨follow, hwalk, -⟩ := walk_eq_step d purpose n
      rw [hwalk] at ih ⊢
      rw [step_up, ih]
  | @last n here part rest hname hend hlink =>
      obtain ⟨follow, hwalk, -⟩ := walk_eq_step d purpose n
      rw [hwalk, step_isName hname, hend]
      rcases hget : d.get? (here ++ [part]) with _ | _ | _ | target
      · rfl
      · rfl
      · exact step_of_named_nil (named_of_last hend) _
      · simp [hlink target hget]
  | @enter n here part rest place hname hget _ ih =>
      obtain ⟨follow, hwalk, -⟩ := walk_eq_step d purpose n
      rw [hwalk] at ih ⊢
      rw [step_isName hname, hget]
      exact ih
  | @link n here part rest place target hname hget hon _ ih =>
      rw [walk, step_isName hname, hget]
      dsimp only
      rw [if_neg, ih]
      intro h
      rw [Bool.and_eq_true, decide_eq_true_eq] at h
      simp [hon h.2] at h

theorem locate_eq_ok_iff {p : Path} :
    d.locate purpose p = .ok place ↔
      pathFault? p = none ∧
        d.Leads purpose linkLimit (d.start p) (Path.split p.bytes) place := by
  rw [locate_eq_walk]
  cases pathFault? p with
  | some fault => simp
  | none => exact ⟨fun h => ⟨rfl, leads_of_walk h⟩, fun h => h.2.walk_eq⟩

/-! ## What a place holds -/

/-- What is found is a directory, or what is there. -/
theorem Leads.entry_eq (h : d.Leads purpose n here parts place) :
    place.entry = some .directory ∨ place.entry = d.get? place.location := by
  induction h with
  | stay n here => exact .inl rfl
  | inert _ _ ih => exact ih
  | up _ ih => exact ih
  | last _ _ _ => exact .inr rfl
  | enter _ _ _ ih => exact ih
  | link _ _ _ _ ih => exact ih

/-- Only for writing a name can be barred. -/
theorem IsName.of_ne_write {other : Purpose} {part : Bytes} {rest : List Bytes}
    (h : IsName purpose part rest) (hother : other ≠ .write) : IsName other part rest :=
  ⟨h.notInert, h.notUp, by simp [barred, hother], h.length_le⟩

theorem IsName.use {part : Bytes} {rest : List Bytes} (h : IsName purpose part rest) :
    IsName .use part rest :=
  h.of_ne_write (by decide)

/-- A place for a file to be written is the one that is used. -/
theorem Leads.use_of_write (h : d.Leads .write n here parts place) :
    d.Leads .use n here parts place := by
  induction h with
  | stay n here => exact .stay n here
  | inert hpart _ ih => exact .inert hpart ih
  | up _ ih => exact .up ih
  | last hname hend hlink =>
      exact .last hname.use hend fun target hget => absurd (hlink target hget) (by decide)
  | enter hname hget _ ih => exact .enter hname.use hget ih
  | link hname hget _ _ ih => exact .link hname.use hget (by simp) ih

theorem leads_of_named_nil (h : Path.named parts = []) (n : Nat) (here : Location) :
    d.Leads purpose n here parts ⟨here, some .directory⟩ := by
  obtain ⟨follow, hwalk, -⟩ := walk_eq_step d purpose n
  refine leads_of_walk ?_
  rw [hwalk, step_of_named_nil h]

/-- A place where there is a directory instead of something new is the one that is used. -/
theorem Leads.use_of_replace {l : Location}
    (h : d.Leads .replace n here parts ⟨l, some .directory⟩) :
    d.Leads .use n here parts ⟨l, some .directory⟩ := by
  generalize hplace : (⟨l, some .directory⟩ : Place) = place at h
  induction h with
  | stay n here => exact .stay n here
  | inert hpart _ ih => exact .inert hpart (ih hplace)
  | up _ ih => exact .up (ih hplace)
  | last hname hend _ =>
      have hget := congrArg Place.entry hplace
      dsimp only at hget
      rw [← hget]
      exact .enter hname.use hget.symm (leads_of_named_nil (named_of_last hend) _ _)
  | enter hname hget _ ih => exact .enter hname.use hget (ih hplace)
  | link hname hget _ _ ih => exact .link hname.use hget (by simp) (ih hplace)

/-- Where a path leads to a directory, nothing new can be put. -/
theorem Leads.exists_replace {l : Location} (h : d.Leads .use n here parts ⟨l, some .directory⟩) :
    ∃ place, d.Leads .replace n here parts place ∧ place.entry.isSome = true := by
  have hreplace : ∀ {part : Bytes} {rest : List Bytes}, IsName .use part rest →
      IsName .replace part rest := fun hname =>
    hname.of_ne_write (by decide)
  generalize hplace : (⟨l, some .directory⟩ : Place) = place at h
  induction h with
  | stay n here => exact ⟨_, .stay n here, rfl⟩
  | inert hpart _ ih =>
      obtain ⟨place, hplace, hentry⟩ := ih hplace
      exact ⟨place, .inert hpart hplace, hentry⟩
  | up _ ih =>
      obtain ⟨place, hplace, hentry⟩ := ih hplace
      exact ⟨place, .up hplace, hentry⟩
  | @last n here part rest hname hend _ =>
      have hnil : rest = [] := by simpa [atEnd] using hend
      have hget := congrArg Place.entry hplace
      exact ⟨_, .last (hreplace hname) (by rw [hnil]; rfl) (fun _ _ => rfl), by rw [← hget]; rfl⟩
  | enter hname hget _ ih =>
      obtain ⟨place, hplace, hentry⟩ := ih hplace
      exact ⟨place, .enter (hreplace hname) hget hplace, hentry⟩
  | @link n here part rest place target hname hget _ _ ih =>
      obtain ⟨place, hplace, hentry⟩ := ih hplace
      cases hend : atEnd .replace rest with
      | true =>
          exact ⟨_, .last (hreplace hname) hend (fun _ _ => rfl), by rw [hget]; rfl⟩
      | false => exact ⟨place, .link (hreplace hname) hget (fun _ => hend) hplace, hentry⟩

/-- On a disk without links parts that lead to a file end in its name. -/
theorem Leads.exists_name (hl : d.LinkFree) {l : Location} {content : Bytes}
    (h : d.Leads .use n here parts ⟨l, some (.file content)⟩) :
    ∃ name above, parts.getLast? = some name ∧ Path.inert name = false ∧ name ≠ Path.up ∧
      l = above ++ [name] := by
  have hlonger : ∀ {part name : Bytes} {rest : List Bytes}, rest.getLast? = some name →
      (part :: rest).getLast? = some name := by
    intro part name rest hlast
    rw [List.getLast?_cons, hlast, Option.getD_some]
  generalize hplace : (⟨l, some (.file content)⟩ : Place) = place at h
  induction h with
  | stay n here => simp at hplace
  | inert _ _ ih =>
      obtain ⟨name, above, hlast, hname⟩ := ih hplace
      exact ⟨name, above, hlonger hlast, hname⟩
  | up _ ih =>
      obtain ⟨name, above, hlast, hname⟩ := ih hplace
      exact ⟨name, above, hlonger hlast, hname⟩
  | @last n here part rest hname hend _ =>
      have hnil : rest = [] := by simpa [atEnd] using hend
      obtain ⟨rfl, -⟩ := Place.mk.inj hplace
      exact ⟨part, here, by rw [hnil]; rfl, hname.notInert, hname.notUp, rfl⟩
  | enter _ _ _ ih =>
      obtain ⟨name, above, hlast, hname⟩ := ih hplace
      exact ⟨name, above, hlonger hlast, hname⟩
  | link _ hget _ _ _ => exact absurd hget (hl _ _)

end Leads

/-! ## Later -/

section Later

variable {d d' : Disk} {directories files : Location → Prop} {purpose : Purpose}

/-- What a place holds on another disk. -/
def Place.on (place : Place) (d : Disk) : Place :=
  ⟨place.location, if place.entry = some .directory then some .directory else d.get? place.location⟩

theorem Changes.link_iff (h : Changes directories files d d') {l : Location} {target : Path} :
    d'.get? l = some (.link target) ↔ d.get? l = some (.link target) := by
  rcases h.entry l with hsame | ⟨_, hnone, hafter⟩ | ⟨_, hbefore, content, hafter⟩
  · rw [hsame]
  · simp [hnone, hafter]
  · rcases hbefore with hnone | ⟨old, hold⟩
    · simp [hnone, hafter]
    · simp [hold, hafter]

/-- The parts lead to the same location when directories have been made and files written. -/
theorem Leads.changes {n : Nat} {here : Location} {parts : List Bytes} {place : Place}
    (h : d.Leads purpose n here parts place) (hc : Changes directories files d d') :
    d'.Leads purpose n here parts (place.on d') := by
  induction h with
  | stay n here => exact .stay n here
  | inert hpart _ ih => exact .inert hpart ih
  | up _ ih => exact .up ih
  | @last n here part rest hname hend hlink =>
      have hon : Place.on ⟨here ++ [part], d.get? (here ++ [part])⟩ d' =
          ⟨here ++ [part], d'.get? (here ++ [part])⟩ := by
        rw [Place.on]
        split
        · next hget => rw [hc.directory hget]
        · rfl
      rw [hon]
      exact .last hname hend fun target hget => hlink target (hc.link_iff.mp hget)
  | enter hname hget _ ih => exact .enter hname (hc.directory hget) ih
  | link hname hget hon _ ih => exact .link hname (hc.link_iff.mpr hget) hon ih

variable {p : Path} {place : Place}

/-- A path leads to the same location when directories have been made and files written. -/
theorem Changes.locate (hc : Changes directories files d d')
    (h : d.locate purpose p = .ok place) : d'.locate purpose p = .ok (place.on d') := by
  rw [locate_eq_ok_iff] at h ⊢
  rw [hc.start]
  exact ⟨h.1, h.2.changes hc⟩

theorem Changes.locate_directory (hc : Changes directories files d d') {l : Location}
    (h : d.locate purpose p = .ok ⟨l, some .directory⟩) :
    d'.locate purpose p = .ok ⟨l, some .directory⟩ := by
  have hlater := hc.locate h
  rwa [Place.on, if_pos rfl] at hlater

theorem entry_of_locate_eq_ok (h : d.locate purpose p = .ok place) :
    place.entry = some .directory ∨ place.entry = d.get? place.location :=
  (locate_eq_ok_iff.mp h).2.entry_eq

theorem locate_use_of_write (h : d.locate .write p = .ok place) : d.locate .use p = .ok place := by
  rw [locate_eq_ok_iff] at h ⊢
  exact ⟨h.1, h.2.use_of_write⟩

theorem locate_use_of_replace {l : Location}
    (h : d.locate .replace p = .ok ⟨l, some .directory⟩) :
    d.locate .use p = .ok ⟨l, some .directory⟩ := by
  rw [locate_eq_ok_iff] at h ⊢
  exact ⟨h.1, h.2.use_of_replace⟩

theorem exists_locate_replace {l : Location} (h : d.locate .use p = .ok ⟨l, some .directory⟩) :
    ∃ place, d.locate .replace p = .ok place ∧ place.entry.isSome = true := by
  rw [locate_eq_ok_iff] at h
  obtain ⟨place, hplace, hentry⟩ := h.2.exists_replace
  exact ⟨place, locate_eq_ok_iff.mpr ⟨h.1, hplace⟩, hentry⟩

end Later

end TreeListing.Disk
