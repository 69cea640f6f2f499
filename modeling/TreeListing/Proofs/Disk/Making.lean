import TreeListing.Proofs.Disk.Changes

/-!
# Making the directories on a path

A directory is made with all those above it by climbing out to one that can be made, and
coming back in.  For a path that never leads up this comes to the same as walking its
names once from the outside and making what is not there: that is `makeAll`, and
`createDirectories_eq` is the equation.

`makeAll` shows at once what the climb hides.  Doing it again changes nothing and ends in
the same way, also after a fault part of the way in (`createDirectories_again`).
-/

namespace TreeListing.Disk

/-- Make a directory for each of the names, one inside the other, and go on where one is
there already. -/
def makeAll : Disk → Location → List Bytes → Option IoFault × Disk
  | d, _, [] => (none, d)
  | d, here, name :: rest =>
      if nameLimit < name.length then (some .nameTooLong, d)
      else match d.get? (here ++ [name]) with
        | none => makeAll (d.put (here ++ [name]) .directory) (here ++ [name]) rest
        | some .directory => makeAll d (here ++ [name]) rest
        | some _ => (some (if rest.isEmpty then .alreadyExists else .notDirectory), d)

/-- Directories stand in a row below a location, with names that are not too long. -/
def Row (d : Disk) : Location → List Bytes → Prop
  | _, [] => True
  | here, name :: rest =>
      name.length ≤ nameLimit ∧ d.get? (here ++ [name]) = some .directory ∧
        Row d (here ++ [name]) rest

/-! ## Making directories from the outside in -/

theorem changes_makeAll (d : Disk) (here : Location) (names : List Bytes) :
    Changes (fun _ => True) nowhere d (d.makeAll here names).2 := by
  induction names generalizing d here with
  | nil => exact .refl _ _ d
  | cons name rest ih =>
      rw [makeAll]
      split
      · exact .refl _ _ d
      · split
        · next hnone =>
            have hput := (Changes.put_directory hnone).mono (fun _ _ => trivial) fun _ => id
            exact hput.trans (ih _ _)
        · exact ih _ _
        · exact .refl _ _ d

theorem Row.changes {directories files : Location → Prop} {d d' : Disk} {here : Location}
    {names : List Bytes} (h : d.Row here names) (hc : Changes directories files d d') :
    d'.Row here names := by
  induction names generalizing here with
  | nil => trivial
  | cons name rest ih => exact ⟨h.1, hc.directory h.2.1, ih h.2.2⟩

/-- The directories of a row. -/
theorem Row.directory {d : Disk} {here : Location} {names first : List Bytes}
    (h : d.Row here names) (hne : first ≠ []) (hinitial : first <+: names) :
    d.get? (here ++ first) = some .directory := by
  induction names generalizing here first with
  | nil => exact absurd (List.prefix_nil.mp hinitial) hne
  | cons name rest ih =>
      obtain ⟨first, rfl⟩ : ∃ tail, first = name :: tail := by
        obtain ⟨x, tail, rfl⟩ := List.exists_cons_of_ne_nil hne
        exact ⟨tail, by rw [(List.cons_prefix_cons.mp hinitial).1]⟩
      by_cases hfirst : first = []
      · rw [hfirst]
        exact h.2.1
      · have := ih h.2.2 hfirst (List.cons_prefix_cons.mp hinitial).2
        rwa [List.append_assoc, List.singleton_append] at this

/-- Making directories stops at the first one and changes nothing, or goes on inside it; and
then it is there in the end. -/
theorem makeAll_cons_cases {d made : Disk} {here : Location} {name : Bytes} {rest : List Bytes}
    {fault : Option IoFault} (h : d.makeAll here (name :: rest) = (fault, made)) :
    ((∃ cause, fault = some cause) ∧ made = d) ∨
    (name.length ≤ nameLimit ∧ made.get? (here ++ [name]) = some .directory ∧
      ∃ next : Disk, next.makeAll (here ++ [name]) rest = (fault, made)) := by
  have hgoes : ∀ next : Disk, next.get? (here ++ [name]) = some .directory →
      next.makeAll (here ++ [name]) rest = (fault, made) →
      made.get? (here ++ [name]) = some .directory := by
    intro next hnext hmade
    have hchanges := changes_makeAll next (here ++ [name]) rest
    rw [hmade] at hchanges
    exact hchanges.directory hnext
  rw [makeAll] at h
  split at h
  · obtain ⟨rfl, rfl⟩ := Prod.mk.inj h
    exact .inl ⟨⟨_, rfl⟩, rfl⟩
  · next hlength =>
      split at h
      · exact .inr ⟨Nat.not_lt.mp hlength, hgoes _ (get?_put_self (by simp) _) h, _, h⟩
      · next hdirectory => exact .inr ⟨Nat.not_lt.mp hlength, hgoes _ hdirectory h, _, h⟩
      · obtain ⟨rfl, rfl⟩ := Prod.mk.inj h
        exact .inl ⟨⟨_, rfl⟩, rfl⟩

theorem row_of_makeAll {d made : Disk} {here : Location} {names : List Bytes}
    (h : d.makeAll here names = (none, made)) : made.Row here names := by
  induction names generalizing d here with
  | nil => trivial
  | cons name rest ih =>
      rcases makeAll_cons_cases h with ⟨⟨cause, hcause⟩, -⟩ | ⟨hlength, hthere, next, hnext⟩
      · simp at hcause
      · exact ⟨hlength, hthere, ih hnext⟩

/-- Making the same directories again ends in the same way and changes nothing. -/
theorem makeAll_again {d made : Disk} {here : Location} {names : List Bytes}
    {fault : Option IoFault} (h : d.makeAll here names = (fault, made)) :
    made.makeAll here names = (fault, made) := by
  induction names generalizing d here with
  | nil =>
      rw [makeAll, Prod.mk.injEq] at h
      rw [makeAll, h.1]
  | cons name rest ih =>
      rcases makeAll_cons_cases h with ⟨-, rfl⟩ | ⟨hlength, hthere, next, hnext⟩
      · exact h
      · rw [makeAll, if_neg (Nat.not_lt.mpr hlength), hthere]
        exact ih hnext

theorem makeAll_congr {d d' : Disk} (h : Same d d') (here : Location) (names : List Bytes) :
    (d'.makeAll here names).1 = (d.makeAll here names).1 ∧
      Same (d.makeAll here names).2 (d'.makeAll here names).2 := by
  induction names generalizing d d' here with
  | nil => exact ⟨rfl, h⟩
  | cons name rest ih =>
      rw [makeAll, makeAll, h.entry]
      split
      · exact ⟨rfl, h⟩
      · split
        · exact ih (h.put _ _) _
        · exact ih h _
        · exact ⟨rfl, h⟩

/-- Where nothing is yet, making directories can be cut anywhere. -/
theorem makeAll_append_of_none {d : Disk} {here : Location} {names more : List Bytes}
    (hnone : ∀ below, below ≠ [] → d.get? (here ++ below) = none) :
    d.makeAll here (names ++ more) =
      match d.makeAll here names with
      | (none, made) => made.makeAll (here ++ names) more
      | (some fault, made) => (some fault, made) := by
  induction names generalizing d here with
  | nil => simp [makeAll]
  | cons name rest ih =>
      simp only [List.cons_append, makeAll]
      split
      · rfl
      · rw [hnone [name] (by simp)]
        dsimp only
        rw [ih]
        · rw [List.append_assoc, List.singleton_append]
        · intro below hbelow
          rw [get?_put_of_ne (by simpa using hbelow), List.append_assoc, List.singleton_append]
          exact hnone (name :: below) (by simp)

/-! ## Looking names up -/

/-- The place that names lead to on a disk without links.  Only the last need not be there
or may be a file. -/
def look (d : Disk) : Location → List Bytes → Except IoFault Place
  | here, [] => .ok ⟨here, some .directory⟩
  | here, name :: rest =>
      if nameLimit < name.length then .error .nameTooLong
      else match d.get? (here ++ [name]) with
        | none => if rest.isEmpty then .ok ⟨here ++ [name], none⟩ else .error .notFound
        | some .directory => look d (here ++ [name]) rest
        | some e => if rest.isEmpty then .ok ⟨here ++ [name], some e⟩ else .error .notDirectory

/-- Parts that end in a name, or hold none. -/
def EndsInName (parts : List Bytes) : Prop :=
  Path.named parts = [] ∨ ∀ last, parts.getLast? = some last → Path.inert last = false

theorem EndsInName.tail {part : Bytes} {rest : List Bytes} (h : EndsInName (part :: rest)) :
    EndsInName rest := by
  rcases h with h | h
  · refine .inl (List.filter_eq_nil_iff.mpr fun x hx => ?_)
    exact List.filter_eq_nil_iff.mp h x (List.mem_cons_of_mem _ hx)
  · refine .inr fun last hlast => h last ?_
    rw [List.getLast?_cons, hlast, Option.getD_some]

/-- After a name, either nothing is left or another name. -/
theorem EndsInName.isEmpty_eq {part : Bytes} {rest : List Bytes} (hpart : Path.inert part = false)
    (h : EndsInName (part :: rest)) :
    rest.all List.isEmpty = rest.isEmpty ∧ (Path.named rest).isEmpty = rest.isEmpty := by
  rcases List.eq_nil_or_concat rest with rfl | ⟨front, last, rfl⟩
  · exact ⟨rfl, rfl⟩
  · rw [List.concat_eq_append] at h ⊢
    have hlast : Path.inert last = false := by
      rcases h with h | h
      · rw [Path.named_cons_of_not_inert hpart] at h
        simp at h
      · exact h last (by rw [List.getLast?_cons, List.getLast?_concat, Option.getD_some])
    have hnonempty : last.isEmpty = false := by
      rw [Path.inert, Bool.or_eq_false_iff] at hlast
      exact hlast.1
    have hnamed : Path.named [last] = [last] := by
      rw [Path.named_cons_of_not_inert hlast, Path.named_nil]
    have hmore : ∀ parts : List Bytes, (parts ++ [last]).isEmpty = false := fun parts =>
      List.isEmpty_eq_false_iff.mpr (by simp)
    rw [Path.named_append, hnamed, hmore, hmore]
    simp [hnonempty]

/-- Whatever it is for, following parts that end in a name is looking the names up. -/
theorem pass_eq_look {d : Disk} (hl : d.LinkFree) (purpose : Purpose) {parts : List Bytes}
    {here : Location} (hend : EndsInName parts) (hup : Path.up ∉ Path.named parts) :
    d.pass purpose here parts = d.look here (Path.named parts) := by
  induction parts generalizing here with
  | nil => rfl
  | cons part rest ih =>
      cases hinert : Path.inert part with
      | true =>
          rw [Path.named_cons_of_inert hinert] at hup ⊢
          rw [pass, step_of_inert hinert]
          exact ih hend.tail hup
      | false =>
          obtain ⟨hempty, hnamed⟩ := hend.isEmpty_eq hinert
          rw [Path.named_cons_of_not_inert hinert] at hup ⊢
          rw [List.mem_cons, not_or] at hup
          have hrest := @ih (here ++ [part]) hend.tail hup.2
          have hlast : (rest.isEmpty || decide (purpose = .replace) && rest.isEmpty) =
              rest.isEmpty := by
            cases rest.isEmpty <;> simp
          have hwrite : (decide (purpose = .write) && rest.isEmpty && !rest.isEmpty) = false := by
            cases rest.isEmpty <;> simp
          rw [pass, step_name hinert (Ne.symm hup.1), ← pass, look, hempty, hnamed, hlast, hwrite,
            hrest]
          cases hget : d.get? (here ++ [part]) with
          | none => simp
          | some entry =>
              cases entry with
              | file content => simp
              | directory => simp
              | link target => exact absurd hget (hl _ _)

section Look

variable {d : Disk} {here : Location} {names : List Bytes}

/-- Looking up a name inside a row of directories is looking it up in the innermost. -/
theorem Row.look_append (h : d.Row here names) (more : List Bytes) :
    d.look here (names ++ more) = d.look (here ++ names) more := by
  induction names generalizing here with
  | nil => simp
  | cons name rest ih =>
      rw [List.cons_append, look, if_neg (Nat.not_lt.mpr h.1), h.2.1]
      dsimp only
      rw [ih h.2.2, List.append_assoc, List.singleton_append]

theorem Row.makeAll_append (h : d.Row here names) (more : List Bytes) :
    d.makeAll here (names ++ more) = d.makeAll (here ++ names) more := by
  induction names generalizing here with
  | nil => simp
  | cons name rest ih =>
      rw [List.cons_append, makeAll, if_neg (Nat.not_lt.mpr h.1), h.2.1]
      dsimp only
      rw [ih h.2.2, List.append_assoc, List.singleton_append]

/-- What looking names up says about making directories for them, unless some directory
above the last is missing. -/
theorem makeAll_of_look (h : d.look here names ≠ .error .notFound) :
    d.makeAll here names = match d.look here names with
      | .ok ⟨l, none⟩ => (none, d.put l .directory)
      | .ok ⟨_, some .directory⟩ => (none, d)
      | .ok ⟨_, some _⟩ => (some .alreadyExists, d)
      | .error fault => (some fault, d) := by
  induction names generalizing here with
  | nil => rfl
  | cons name rest ih =>
      rw [look] at h
      rw [makeAll, look]
      by_cases hlength : nameLimit < name.length
      · rw [if_pos hlength, if_pos hlength]
      · rw [if_neg hlength] at h
        rw [if_neg hlength, if_neg hlength]
        cases hget : d.get? (here ++ [name]) with
        | none =>
            rw [hget] at h
            cases rest with
            | nil => rfl
            | cons next rest => simp at h
        | some entry =>
            rw [hget] at h
            cases entry with
            | directory => exact ih h
            | file content => cases rest <;> rfl
            | link target => cases rest <;> rfl

/-- Where a directory above the last is missing, making directories begins with those above
the last. -/
theorem makeAll_concat_of_look (hd : d.WellFormed) {name : Bytes}
    (h : d.look here (names ++ [name]) = .error .notFound) :
    d.makeAll here (names ++ [name]) =
      match d.makeAll here names with
      | (none, made) => made.makeAll (here ++ names) [name]
      | (some fault, made) => (some fault, made) := by
  induction names generalizing here with
  | nil =>
      rw [List.nil_append, look] at h
      split at h
      · simp at h
      · split at h <;> simp [look] at h
  | cons first rest ih =>
      rw [List.cons_append, look] at h
      rw [List.cons_append, makeAll, makeAll.eq_2 d here first rest]
      split at h
      · simp at h
      · next hlength =>
          rw [if_neg hlength, if_neg hlength]
          cases hget : d.get? (here ++ [first]) with
          | none =>
              dsimp only
              rw [makeAll_append_of_none, List.append_assoc, List.singleton_append]
              -- nothing can be inside a directory that has just been made
              intro below hbelow
              rw [get?_put_of_ne (by simpa using hbelow)]
              by_contra hthere
              simp [hd.directory_above hbelow hthere] at hget
          | some entry =>
              rw [hget] at h
              cases entry with
              | directory =>
                  have happend := ih h
                  rwa [List.append_assoc, List.singleton_append] at happend
              | file content => simp at h
              | link target => simp at h

end Look

/-! ## Making a directory with those above it -/

/-- A path that ends in a name, or asks for none, and never leads up. -/
structure Plain (p : Path) : Prop where
  endsInName : EndsInName (Path.split p.bytes)
  notMem_up : Path.up ∉ p.names

/-- What precedes inert parts at the end of a path ends in a name, behind its lead. -/
theorem endsInName_intercalate {p : Path} {parts : List Bytes}
    (h : parts <+: Path.split (p.bytes.drop p.lead.length))
    (hlast : ∀ last, parts.getLast? = some last → Path.inert last = false) :
    EndsInName (Path.split (p.lead ++ [Path.slash].intercalate parts)) := by
  have hslash : ∀ part ∈ parts, Path.slash ∉ part := fun part hpart =>
    Path.slash_notMem_of_mem_split (h.subset hpart)
  have hdot : p.lead = [Path.dot] → [Path.slash].intercalate parts = [] ∨
      ∃ tail, [Path.slash].intercalate parts = Path.slash :: tail := fun hl =>
    Path.intercalate_parts_of_dot hl h
  by_cases hparts : parts = []
  · refine .inl ?_
    rw [Path.named_split_lead p _ hdot, hparts]
    rfl
  · refine .inr fun last hend => hlast last ?_
    have hsplit : Path.split ([Path.slash].intercalate parts) = parts := by
      rw [Path.split_eq_splitOn, List.splitOn_intercalate Path.slash hslash hparts]
    rw [Path.getLast?_split_append, hsplit] at hend
    · exact hend
    · rcases Path.lead_cases p with ⟨hl, _⟩ | ⟨hl, _⟩ | ⟨hl, _⟩
      · exact .inl hl
      · exact .inr (.inl (by rw [hl]; rfl))
      · rcases hdot hl with hnil | ⟨tail, htail⟩
        · rw [hnil] at hsplit
          have hempty : Path.inert ([] : Bytes) = true := rfl
          have := hlast [] (by rw [← hsplit]; rfl)
          simp [hempty] at this
        · exact .inr (.inr (by rw [htail]; rfl))

theorem endsInName_trimmed (p : Path) : EndsInName (Path.split p.trimmed.bytes) :=
  endsInName_intercalate (Path.dropInert_isPrefix _) fun _ => Path.inert_getLast_parts

theorem Plain.parent {p q : Path} (hp : Plain p) (h : p.parent? = some q) : Plain q where
  endsInName := by
    rcases Path.exists_of_parent? h with ⟨_, _, rfl⟩ | ⟨_, rfl⟩
    · exact .inl rfl
    · have hinitial : Path.dropInert p.parts.dropLast <+: Path.split (p.bytes.drop p.lead.length) :=
        (Path.dropInert_isPrefix _).trans
          ((List.dropLast_prefix _).trans (Path.dropInert_isPrefix _))
      exact endsInName_intercalate hinitial fun _ => Path.inert_getLast_dropInert
  notMem_up := by
    rw [Path.names_of_parent? h]
    exact fun hup => hp.notMem_up (List.dropLast_subset _ hup)

/-- What is wrong with the bytes of a parent is wrong with its path. -/
theorem pathFault?_of_parent {p q : Path} (h : p.parent? = some q) (hq : q.parent?.isSome)
    (hp : pathFault? p = none) : pathFault? q = none := by
  have hinitial := Path.isPrefix_of_parent? h
  have hnonempty : q.bytes ≠ [] := by
    intro hnil
    obtain ⟨outer, houter⟩ := Option.isSome_iff_exists.mp hq
    have := Path.length_lt_of_parent? houter
    simp [hnil] at this
  have hlength := hinitial.length_le
  unfold pathFault? at hp ⊢
  split at hp
  · simp at hp
  · next hnul =>
      split at hp
      · simp at hp
      · split at hp
        · simp at hp
        · next hlimit =>
            rw [if_neg, if_neg (by simpa using hnonempty), if_neg (by omega)]
            intro hmem
            simp only [List.contains_iff_mem] at hmem hnul
            exact hnul (hinitial.subset hmem)

theorem pathFault?_cases {p q : Path} {fault : IoFault} (h : p.parent? = some q)
    (hfault : pathFault? p = some fault) : fault = .nulByte ∨ fault = .nameTooLong := by
  have hlength := Path.length_lt_of_parent? h
  have hnonempty : p.bytes.isEmpty = false := by
    cases hb : p.bytes with
    | nil => simp [hb] at hlength
    | cons b rest => rfl
  rw [pathFault?, hnonempty] at hfault
  split at hfault
  · exact .inl (Option.some.inj hfault).symm
  · simp only [Bool.false_eq_true, if_false] at hfault
    split at hfault
    · exact .inr (Option.some.inj hfault).symm
    · simp at hfault

section Climb

variable {d : Disk} {p : Path}

/-- Following a plain path is looking its names up, whatever it is followed for. -/
theorem locate_eq_look (hl : d.LinkFree) (hp : Plain p) (hfault : pathFault? p = none)
    (purpose : Purpose) : d.locate purpose p = d.look (d.start p) p.names := by
  rw [locate_eq hl, hfault]
  exact pass_eq_look hl purpose hp.endsInName hp.notMem_up

theorem createDirectory_eq_look (hl : d.LinkFree) (hp : Plain p) (hfault : pathFault? p = none) :
    d.createDirectory p = match d.look (d.start p) p.names with
      | .ok ⟨l, none⟩ => .ok (d.put l .directory)
      | .ok ⟨_, some _⟩ => .error .alreadyExists
      | .error fault => .error fault := by
  rw [createDirectory, create, locate_eq_look hl hp hfault]
  rcases d.look (d.start p) p.names with fault | ⟨l, _ | e⟩ <;> rfl

theorem isDirectory_eq_look (hl : d.LinkFree) (hp : Plain p) (hfault : pathFault? p = none) :
    d.isDirectory p = match d.look (d.start p) p.names with
      | .ok ⟨_, some .directory⟩ => true
      | _ => false := by
  rw [isDirectory, find?, locate_eq_look hl hp hfault]
  rcases d.look (d.start p) p.names with fault | ⟨l, _ | _ | _ | _⟩ <;> rfl

/-- Go on making directories unless it has failed. -/
def thenAll (paths : List Path) : Option IoFault × Disk → Option IoFault × Disk
  | (none, d) => d.createAll paths
  | (some fault, d) => (some fault, d)

/-- Making a plain directory first is making the directories for its names, unless one
above it is missing. -/
theorem createAll_cons (hl : d.LinkFree) (hp : Plain p) (hfault : pathFault? p = none)
    (h : d.look (d.start p) p.names ≠ .error .notFound) (paths : List Path) :
    d.createAll (p :: paths) = thenAll paths (d.makeAll (d.start p) p.names) := by
  rw [createAll, createDirectory_eq_look hl hp hfault, isDirectory_eq_look hl hp hfault,
    makeAll_of_look h]
  rcases d.look (d.start p) p.names with fault | ⟨l, _ | _ | _ | _⟩
  · cases fault <;> rfl
  · rfl
  · rfl
  · rfl
  · rfl

/-- What the climb from a path leads to. -/
def climbThen (d : Disk) (missing : List Path) (p : Path) : Option IoFault × Disk :=
  match d.climb missing p.chain with
  | .ok (missing, made) => made.createAll missing
  | .error fault => (some fault, d)

/-- Where a directory above the last is missing, making a directory comes after making its
parent. -/
theorem thenAll_parent (hl : d.LinkFree) (hd : d.WellFormed) (hp : Plain p)
    (hfault : pathFault? p = none) {outer : Path} (houter : p.parent? = some outer)
    (hmissing : d.look (d.start p) p.names = .error .notFound) (missing : List Path) :
    thenAll (p :: missing) (d.makeAll (d.start outer) outer.names) =
      thenAll missing (d.makeAll (d.start p) p.names) := by
  obtain ⟨name, hnames⟩ : ∃ name, p.names = outer.names ++ [name] := by
    have hne : p.names ≠ [] := by
      intro hnil
      simp [hnil, look] at hmissing
    exact ⟨p.names.getLast hne, by
      rw [Path.names_of_parent? houter, List.dropLast_concat_getLast]⟩
  have hstart : d.start outer = d.start p := by
    rw [start, start, Path.isAbsolute_of_parent? houter]
  have hcut := makeAll_concat_of_look hd (hnames ▸ hmissing)
  rw [hstart, hnames, hcut]
  rcases hmade : d.makeAll (d.start p) outer.names with ⟨_ | fault, made⟩
  · have hchanges := changes_makeAll d (d.start p) outer.names
    rw [hmade] at hchanges
    have hrow : made.Row (made.start p) outer.names := by
      rw [hchanges.start]
      exact row_of_makeAll hmade
    have hfound : made.look (made.start p) p.names ≠ .error .notFound := by
      rw [hnames, hrow.look_append, look]
      split
      · simp
      · split <;> simp [look]
    change made.createAll (p :: missing) = thenAll missing (made.makeAll _ [name])
    rw [createAll_cons (hchanges.linkFree hl) hp hfault hfound, hnames, hrow.makeAll_append,
      hchanges.start]
  · rfl

/-- Climbing out and coming back in is making directories from the outside in. -/
theorem climbThen_eq (hl : d.LinkFree) (hd : d.WellFormed) (hp : Plain p)
    (hfault : p.parent?.isSome → pathFault? p = none) (missing : List Path) :
    d.climbThen missing p = thenAll missing (d.makeAll (d.start p) p.names) := by
  induction p using Path.parent_induction generalizing missing with
  | step p ih =>
      cases houter : p.parent? with
      | none =>
          rw [climbThen, Path.chain_of_none houter, climb, Path.names_of_parent?_none houter]
          rfl
      | some outer =>
          have hok : pathFault? p = none := hfault (by simp [houter])
          have hlook := createDirectory_eq_look hl hp hok
          have hthere := isDirectory_eq_look hl hp hok
          rw [climbThen, Path.chain_of_some houter, climb, hlook, hthere]
          by_cases hmissing : d.look (d.start p) p.names = .error .notFound
          · -- the climb goes on, and later comes back to this path
            have hnext := ih outer houter (hp.parent houter)
              (fun h => pathFault?_of_parent houter h hok) (p :: missing)
            rw [hmissing]
            change d.climbThen (p :: missing) outer = _
            rw [hnext, thenAll_parent hl hd hp hok houter hmissing]
          · rw [makeAll_of_look hmissing]
            rcases hplace : d.look (d.start p) p.names with fault | ⟨l, _ | _ | _ | _⟩
            · cases fault <;> first | rfl | exact absurd hplace hmissing
            · rfl
            · rfl
            · rfl
            · rfl

/-- What making a directory with all those above it comes to. -/
theorem createDirectories_eq (hl : d.LinkFree) (hd : d.WellFormed) (hp : Plain p) :
    d.createDirectories p = match if p.parent?.isSome then pathFault? p else none with
      | some fault => (some fault, d)
      | none => d.makeAll (d.start p) p.names := by
  have hclimb : d.createDirectories p = d.climbThen [] p := rfl
  rw [hclimb]
  cases hbad : if p.parent?.isSome then pathFault? p else none with
  | none =>
      rw [climbThen_eq hl hd hp fun h => by rwa [if_pos h] at hbad]
      rcases d.makeAll (d.start p) p.names with ⟨_ | fault, made⟩ <;> rfl
  | some fault =>
      obtain ⟨hparent, hfault⟩ : p.parent?.isSome = true ∧ pathFault? p = some fault := by
        split at hbad
        · next h => exact ⟨h, hbad⟩
        · simp at hbad
      obtain ⟨outer, houter⟩ := Option.isSome_iff_exists.mp hparent
      have hlook : d.createDirectory p = .error fault := by
        rw [createDirectory, create, locate_eq hl, hfault]
        rfl
      have hkind := pathFault?_cases houter hfault
      rw [climbThen, Path.chain_of_some houter, climb, hlook]
      rcases hkind with rfl | rfl <;> rfl

/-- Making the directories on a path again ends in the same way and changes nothing. -/
theorem createDirectories_again (hl : d.LinkFree) (hd : d.WellFormed) (hp : Plain p)
    {fault : Option IoFault} {made : Disk} (h : d.createDirectories p = (fault, made)) :
    made.createDirectories p = (fault, made) := by
  have hchanges := changes_createDirectories hl h
  have hmade := hd.createDirectories hl h
  rw [createDirectories_eq hl hd hp] at h
  rw [createDirectories_eq (hchanges.linkFree hl) hmade hp, hchanges.start]
  split at h
  · rw [← (Prod.mk.inj h).1]
  · exact makeAll_again h

/-- Making the directories on a path ends in the same way on two disks that hold the same,
and leaves two that hold the same. -/
theorem createDirectories_congr {d' : Disk} (hl : d.LinkFree) (hd : d.WellFormed) (hp : Plain p)
    (h : Same d d') :
    (d'.createDirectories p).1 = (d.createDirectories p).1 ∧
      Same (d.createDirectories p).2 (d'.createDirectories p).2 := by
  have hl' : d'.LinkFree := (h.changes nowhere nowhere).linkFree hl
  rw [createDirectories_eq hl hd hp, createDirectories_eq hl' (h.wellFormed hd) hp,
    (h.changes nowhere nowhere).start]
  split
  · exact ⟨rfl, h⟩
  · exact makeAll_congr h _ _

/-- Once the directories on a path have been made, they are in a row. -/
theorem row_of_createDirectories (hl : d.LinkFree) (hd : d.WellFormed) (hp : Plain p)
    {made : Disk} (h : d.createDirectories p = (none, made)) :
    made.Row (made.start p) p.names := by
  have hchanges := changes_createDirectories hl h
  rw [createDirectories_eq hl hd hp] at h
  rw [hchanges.start]
  split at h
  · simp at h
  · exact row_of_makeAll h

end Climb

/-- A name in a row of directories is followed alike on two disks that hold the same
there. -/
theorem locate_congr_of_row {d d' : Disk} (hl : d.LinkFree) (hl' : d'.LinkFree)
    (hworking : d'.workingDirectory = d.workingDirectory) {p : Path} {names : List Bytes}
    {name : Bytes} (hnames : p.names = names ++ [name]) (hup : Path.up ∉ p.names)
    (hrow : d.Row (d.start p) names) (hrow' : d'.Row (d'.start p) names)
    (htarget : d'.get? (d.target p) = d.get? (d.target p)) (purpose : Purpose) :
    d'.locate purpose p = d.locate purpose p := by
  have hstart : d'.start p = d.start p := by rw [start, start, hworking]
  rw [target, along_of_notMem_up hup] at htarget
  refine (locate_congr hl hl' hworking hup fun first hne hinitial => ?_).symm
  rw [hnames, List.prefix_concat_iff] at hinitial
  rcases hinitial with hwhole | hinitial
  · rw [hwhole, ← hnames, htarget]
  · rw [hrow.directory hne hinitial, ← hstart, hrow'.directory hne hinitial]

end TreeListing.Disk
