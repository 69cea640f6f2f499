import TreeListing.Proofs.Path.LastName

/-!
# Parents of paths

The parent of a path lacks its last name (`names_of_parent?`) and is a prefix of it byte by
byte (`isPrefix_of_parent?`), so whatever is wrong with the bytes of a parent is wrong with
its path.  Going from parent to parent ends (`parent_induction`), and the paths on that way
that have a parent themselves are the chain of a path.  `parent?_join` says that a name put
into a directory has that directory as its parent, trimmed of the separators and single dots at
its end (`trails_trimmed`).
-/

namespace TreeListing.Path

/-! ## Parents -/

theorem exists_of_parent? {p q : Path} (h : p.parent? = some q) :
    (p.parts = [] ∧ p.lead = [dot] ∧ q = ⟨[]⟩) ∨
      p.parts ≠ [] ∧ q = ⟨p.lead ++ [slash].intercalate (dropInert p.parts.dropLast)⟩ := by
  unfold parent? at h
  split at h
  · next hparts =>
      split at h
      · next hlead =>
          exact .inl ⟨List.isEmpty_iff.mp hparts, hlead, (Option.some.inj h).symm⟩
      · simp at h
  · next hparts =>
      exact .inr ⟨by simpa using hparts, (Option.some.inj h).symm⟩

theorem isPrefix_of_parent? {p q : Path} (h : p.parent? = some q) : q.bytes <+: p.bytes := by
  rcases exists_of_parent? h with ⟨_, _, rfl⟩ | ⟨_, rfl⟩
  · exact List.nil_prefix
  · have hparts : dropInert p.parts.dropLast <+: split (p.bytes.drop p.lead.length) :=
      (dropInert_isPrefix _).trans ((List.dropLast_prefix _).trans (dropInert_isPrefix _))
    have hinitial := intercalate_isPrefix hparts
    rw [split_eq_splitOn, List.intercalate_splitOn] at hinitial
    have hwhole := (List.prefix_append_right_inj p.lead).mpr hinitial
    rwa [lead_append_drop] at hwhole

/-- The parts of a path after its lead, without those at the end, follow the lead as the
path's own do. -/
theorem intercalate_parts_of_dot {p : Path} {parts : List Bytes} (hlead : p.lead = [dot])
    (h : parts <+: split (p.bytes.drop p.lead.length)) :
    [slash].intercalate parts = [] ∨ ∃ tail, [slash].intercalate parts = slash :: tail := by
  have hinitial := intercalate_isPrefix h
  rw [split_eq_splitOn, List.intercalate_splitOn] at hinitial
  rcases drop_lead_of_dot hlead with hdrop | ⟨tail, hdrop⟩
  · exact .inl (List.prefix_nil.mp (hdrop ▸ hinitial))
  · rw [hdrop, List.prefix_cons_iff] at hinitial
    rcases hinitial with hnil | ⟨tail, htail, _⟩
    · exact .inl hnil
    · exact .inr ⟨tail, htail⟩

theorem named_split_intercalate {parts : List Bytes} (h : ∀ part ∈ parts, slash ∉ part) :
    named (split ([slash].intercalate parts)) = named parts := by
  cases parts with
  | nil => rfl
  | cons part parts => rw [split_eq_splitOn, List.splitOn_intercalate slash h (by simp)]

/-- The parent of a path lacks its last name. -/
theorem names_of_parent? {p q : Path} (h : p.parent? = some q) : q.names = p.names.dropLast := by
  rcases exists_of_parent? h with ⟨hparts, _, rfl⟩ | ⟨hparts, rfl⟩
  · rw [← named_parts p, hparts]
    rfl
  · have hinitial : dropInert p.parts.dropLast <+: split (p.bytes.drop p.lead.length) :=
      (dropInert_isPrefix _).trans ((List.dropLast_prefix _).trans (dropInert_isPrefix _))
    have hslash : ∀ part ∈ dropInert p.parts.dropLast, slash ∉ part := fun part hpart =>
      slash_notMem_of_mem_split (hinitial.subset hpart)
    obtain ⟨front, last, hlast⟩ := (List.eq_nil_or_concat p.parts).resolve_left hparts
    have hinert : inert last = false := inert_getLast_parts (p := p) (by rw [hlast]; simp)
    rw [names, named_split_lead p _ fun hl => intercalate_parts_of_dot hl hinitial,
      named_split_intercalate hslash, named_dropInert, ← named_parts, hlast]
    simp [named, hinert]

/-- A path without a parent asks for no name. -/
theorem names_of_parent?_none {p : Path} (h : p.parent? = none) : p.names = [] := by
  unfold parent? at h
  split at h
  · next hparts => rw [← named_parts, List.isEmpty_iff.mp hparts, named_nil]
  · simp at h

/-- A parent is as absolute as its path. -/
theorem isAbsolute_of_parent? {p q : Path} (h : p.parent? = some q) :
    q.isAbsolute = p.isAbsolute := by
  have hdot : [slash] ≠ [dot] := by decide
  have hinitial := isPrefix_of_parent? h
  cases hq : q.bytes with
  | cons b tail =>
      obtain ⟨rest, hrest⟩ := hinitial
      simp [isAbsolute, ← hrest, hq]
  | nil =>
      rcases lead_cases p with ⟨_, ha⟩ | ⟨hl, _⟩ | ⟨_, ha, _⟩
      · simp [isAbsolute, hq, ← ha]
      · rcases exists_of_parent? h with ⟨_, hd, _⟩ | ⟨_, rfl⟩
        · exact absurd (hl.symm.trans hd) hdot
        · simp [hl] at hq
      · simp [isAbsolute, hq, ← ha]

/-! ## The way out -/

/-- A parent is shorter than its path. -/
theorem length_lt_of_parent? {p q : Path} (h : p.parent? = some q) :
    q.bytes.length < p.bytes.length := by
  have hinitial := isPrefix_of_parent? h
  refine Nat.lt_of_le_of_ne hinitial.length_le fun hlength => ?_
  have hsame : q = p := by
    cases p
    cases q
    simpa using hinitial.eq_of_length hlength
  rcases exists_of_parent? h with ⟨_, hlead, rfl⟩ | ⟨hparts, _⟩
  · rw [← hsame] at hlead
    simp [lead] at hlead
  · have hnames := names_of_parent? h
    rw [hsame] at hnames
    obtain ⟨front, last, hlast⟩ := (List.eq_nil_or_concat p.parts).resolve_left hparts
    have hinert : inert last = false := inert_getLast_parts (p := p) (by rw [hlast]; simp)
    have hne : p.names ≠ [] := by
      rw [← named_parts, hlast]
      simp [named, hinert]
    have := congrArg List.length hnames
    have := List.length_pos_iff.mpr hne
    simp only [List.length_dropLast] at *
    omega

/-- What holds of a path if it holds of its parent holds of every path. -/
theorem parent_induction {motive : Path → Prop}
    (step : ∀ p, (∀ q, p.parent? = some q → motive q) → motive p) (p : Path) : motive p := by
  generalize hn : p.bytes.length = n
  induction n using Nat.strongRecOn generalizing p with
  | ind n ih =>
      refine step p fun q hq => ih q.bytes.length ?_ q rfl
      exact hn ▸ length_lt_of_parent? hq

theorem ancestorsWithin_eq {n m : Nat} {p : Path} (hn : p.bytes.length < n)
    (hm : p.bytes.length < m) : ancestorsWithin n p = ancestorsWithin m p := by
  induction n generalizing p m with
  | zero => omega
  | succ n ih =>
      obtain ⟨m, rfl⟩ : ∃ k, m = k + 1 := ⟨m - 1, by omega⟩
      rw [ancestorsWithin, ancestorsWithin]
      cases hq : p.parent? with
      | none => rfl
      | some q =>
          have hlength := length_lt_of_parent? hq
          simp only [Option.map_some, Option.getD_some]
          rw [ih (m := m) (by omega) (by omega)]

/-- The paths that have a parent, from a path out. -/
def chain (p : Path) : List Path :=
  p.ancestors.takeWhile fun (q : Path) => q.parent?.isSome

theorem chain_of_none {p : Path} (h : p.parent? = none) : p.chain = [] := by
  simp [chain, ancestors, ancestorsWithin, h]

theorem ancestors_of_some {p q : Path} (h : p.parent? = some q) :
    p.ancestors = p :: q.ancestors := by
  have hfuel : ancestorsWithin p.bytes.length q = q.ancestors :=
    ancestorsWithin_eq (length_lt_of_parent? h) (Nat.lt_succ_self _)
  rw [ancestors, ancestorsWithin, h, Option.map_some, Option.getD_some, hfuel]

theorem chain_of_some {p q : Path} (h : p.parent? = some q) : p.chain = p :: q.chain := by
  rw [chain, ancestors_of_some h, List.takeWhile_cons, h]
  rfl

/-- Every path on the way out asks for the first names of the path. -/
theorem names_of_mem_chain {p q : Path} (h : q ∈ p.chain) :
    q.names <+: p.names ∧ q.isAbsolute = p.isAbsolute ∧ q.bytes <+: p.bytes := by
  induction p using parent_induction with
  | step p ih =>
      cases hp : p.parent? with
      | none => simp [chain_of_none hp] at h
      | some outer =>
          rw [chain_of_some hp, List.mem_cons] at h
          rcases h with rfl | h
          · exact ⟨List.prefix_rfl, rfl, List.prefix_rfl⟩
          · obtain ⟨hnames, habsolute, hbytes⟩ := ih outer hp h
            refine ⟨hnames.trans ?_, habsolute.trans (isAbsolute_of_parent? hp),
              hbytes.trans (isPrefix_of_parent? hp)⟩
            rw [names_of_parent? hp]
            exact List.dropLast_prefix _

/-! ## The parent of a name in a directory -/

/-- The path without the inert parts at its end. -/
def trimmed (p : Path) : Path :=
  ⟨p.lead ++ [slash].intercalate p.parts⟩

/-- A path goes on from another one with nothing but separators and single dots; the root has
the first separator in itself. -/
def Trails (p q : Path) : Prop :=
  ∃ tail, p.bytes = q.bytes ++ tail ∧
    (Trailing tail ∨ q.bytes = [slash] ∧ Trailing (slash :: tail))

theorem trailing_of_split {b : Bytes} (h : ∀ part ∈ split b, inert part = true) :
    Trailing (slash :: b) := by
  have hbytes : slash :: b = (split b).flatMap (slash :: ·) := by
    have hempty : ([[]] : List Bytes) ≠ [] := List.cons_ne_nil _ _
    have hjoined := intercalate_append hempty (split b)
    obtain ⟨part, parts, hsplit⟩ := List.exists_cons_of_ne_nil (List.splitOn_ne_nil slash b)
    rw [← split_eq_splitOn] at hsplit
    rw [hsplit, List.singleton_append, List.intercalate_cons_cons, ← hsplit, split_eq_splitOn,
      List.intercalate_splitOn] at hjoined
    simpa [split_eq_splitOn] using hjoined
  exact hbytes ▸ trailing_flatMap h

/-- A dot comes right behind the lead only if that is the root: else it would be the lead. -/
theorem trailing_or_lead {p : Path} {tail : Bytes} (hbytes : p.lead ++ tail = p.bytes)
    (h : Trailing (slash :: tail)) : Trailing tail ∨ p.lead = [slash] := by
  have hslash : dot ≠ slash := by decide
  cases h with
  | separator h => exact .inl h
  | @single tail h =>
      rcases lead_cases p with ⟨hl, _⟩ | ⟨hl, _⟩ | ⟨hl, _, hdot⟩
      · have hlead : p.lead = [dot] := by
          rw [hl, List.nil_append] at hbytes
          cases h <;> simp [lead, ← hbytes, hslash]
        simp [hl] at hlead
      · exact .inr hl
      · rw [hl] at hbytes
        rcases hdot with hdot | ⟨rest, hdot⟩
        · simp [hdot] at hbytes
        · simp [hdot, hslash] at hbytes

/-- Only separators and single dots are trimmed off. -/
theorem trails_trimmed (p : Path) : p.Trails p.trimmed := by
  obtain ⟨rest, hsplit, hinert⟩ := exists_dropInert_append (split (p.bytes.drop p.lead.length))
  have hbytes := lead_append_drop p
  rw [Trails, trimmed]
  by_cases hparts : p.parts = []
  · have hnone : [slash].intercalate ([] : List Bytes) = [] := rfl
    have hall : Trailing (slash :: p.bytes.drop p.lead.length) := by
      rw [← parts, hparts, List.nil_append] at hsplit
      exact trailing_of_split (hsplit ▸ hinert)
    rw [hparts, hnone, List.append_nil]
    exact ⟨_, hbytes.symm, (trailing_or_lead hbytes hall).imp_right fun hroot => ⟨hroot, hall⟩⟩
  · have hdrop : p.bytes.drop p.lead.length =
        [slash].intercalate p.parts ++ rest.flatMap (slash :: ·) := by
      rw [← intercalate_append hparts, parts, ← hsplit, split_eq_splitOn, List.intercalate_splitOn]
    exact ⟨_, by rw [List.append_assoc, ← hdrop, hbytes], .inl (trailing_flatMap hinert)⟩

/-- What follows the first part of a path does not change the lead. -/
theorem lead_append {p : Path} {tail : Bytes} (hp : p.bytes ≠ [])
    (hdot : p.bytes = [dot] → tail.head? = some slash) :
    (⟨p.bytes ++ tail⟩ : Path).lead = p.lead := by
  cases hb : p.bytes with
  | nil => exact absurd hb hp
  | cons b rest =>
      cases rest with
      | cons c rest => simp [lead, hb]
      | nil =>
          by_cases hd : b = dot
          · have hhead := hdot (by rw [hb, hd])
            have hslash : dot ≠ slash := by decide
            simp [lead, hb, hd, hslash, hhead]
          · simp [lead, hb, hd]

theorem trimmed_append_slash {p : Path} (hp : p.bytes ≠ []) :
    (⟨p.bytes ++ [slash]⟩ : Path).trimmed = p.trimmed := by
  have hinert : inert ([] : Bytes) = true := rfl
  obtain ⟨rest, hrest⟩ := lead_isPrefix p
  have hdrop : p.bytes.drop p.lead.length = rest := by rw [← hrest, List.drop_left]
  have hwhole : (p.bytes ++ [slash]).drop p.lead.length = rest ++ [slash] := by
    rw [← hrest, List.append_assoc, List.drop_left]
  have hlead : (⟨p.bytes ++ [slash]⟩ : Path).lead = p.lead := lead_append hp fun _ => rfl
  simp only [trimmed, parts, hlead, hdrop, hwhole]
  rw [split_append_slash, split, dropInert_concat_of_inert hinert]

section InDirectory

variable {name : Bytes}

theorem parent?_of_split {p : Path} {front : List Bytes} (hname : inert name = false)
    (hsplit : split (p.bytes.drop p.lead.length) = front ++ [name]) :
    p.parent? = some ⟨p.lead ++ [slash].intercalate (dropInert front)⟩ := by
  have hparts : p.parts = front ++ [name] := by rw [parts, hsplit, dropInert_concat hname]
  simp [parent?, hparts]

/-- A name alone has no lead. -/
theorem lead_of_name (hslash : slash ∉ name) (hname : inert name = false) :
    (⟨name⟩ : Path).lead = [] := by
  cases name with
  | nil => rfl
  | cons b rest =>
      simp only [List.mem_cons, not_or] at hslash
      cases rest with
      | nil =>
          have hdot : b ≠ dot := by simpa [inert] using hname
          simp [lead, Ne.symm hslash.1, hdot]
      | cons c rest =>
          simp only [List.mem_cons, not_or] at hslash
          simp [lead, Ne.symm hslash.1, Ne.symm hslash.2.1]

theorem isAbsolute_of_name (hslash : slash ∉ name) : (⟨name⟩ : Path).isAbsolute = false := by
  cases name with
  | nil => rfl
  | cons b rest =>
      simp only [List.mem_cons, not_or] at hslash
      simp [isAbsolute, Ne.symm hslash.1]

theorem parent?_append_slash {p : Path} (hslash : slash ∉ name) (hname : inert name = false)
    (hp : p.bytes ≠ []) : (⟨p.bytes ++ slash :: name⟩ : Path).parent? = some p.trimmed := by
  have hlead : (⟨p.bytes ++ slash :: name⟩ : Path).lead = p.lead :=
    lead_append hp fun _ => rfl
  obtain ⟨rest, hrest⟩ := lead_isPrefix p
  have hdrop : p.bytes.drop p.lead.length = rest := by rw [← hrest, List.drop_left]
  have hwhole : (p.bytes ++ slash :: name).drop p.lead.length = rest ++ slash :: name := by
    rw [← hrest, List.append_assoc, List.drop_left]
  have hsplit : split (rest ++ slash :: name) = split rest ++ [name] := by
    rw [split_append_slash, split_of_not_mem hslash]
  rw [parent?_of_split hname (by rw [hlead, hwhole, hsplit]), hlead, trimmed, parts, hdrop]

/-- The parent of a name in a directory is that directory. -/
theorem parent?_join (hslash : slash ∉ name) (hname : inert name = false) (p : Path) :
    (p.join ⟨name⟩).parent? = some p.trimmed := by
  have hsplit : split name = [] ++ [name] := split_of_not_mem hslash
  unfold join
  rw [isAbsolute_of_name hslash, if_neg (by simp)]
  split
  · next hend =>
      simp only [Bool.or_eq_true, List.isEmpty_iff, beq_iff_eq] at hend
      by_cases hempty : p.bytes = []
      · obtain rfl : p = ⟨[]⟩ := by cases p; simpa using hempty
        have hlead := lead_of_name hslash hname
        rw [List.nil_append, parent?_of_split hname (by rw [hlead]; exact hsplit), hlead]
        rfl
      · obtain ⟨before, hbefore⟩ := List.getLast?_eq_some_iff.mp (hend.resolve_left hempty)
        rw [hbefore, List.append_assoc, List.singleton_append]
        obtain rfl : p = ⟨before ++ [slash]⟩ := by cases p; simpa using hbefore
        by_cases hroot : before = []
        · subst hroot
          have hlead : (⟨[] ++ slash :: name⟩ : Path).lead = [slash] := by simp [lead]
          rw [parent?_of_split hname (by rw [hlead]; exact hsplit), hlead]
          rfl
        · have hparent := parent?_append_slash (p := ⟨before⟩) hslash hname hroot
          rw [hparent, trimmed_append_slash (p := ⟨before⟩) hroot]
  · next hend =>
      simp only [Bool.or_eq_true, List.isEmpty_iff, beq_iff_eq, not_or] at hend
      exact parent?_append_slash hslash hname hend.1

/-- A name in a directory begins as the directory does. -/
theorem lead_join (hslash : slash ∉ name) (hname : inert name = false) (p : Path) :
    (p.join ⟨name⟩).lead = p.lead := by
  rw [join_of_relative (isAbsolute_of_name hslash), List.append_assoc]
  by_cases hempty : p.bytes = []
  · have hgap : p.gap = [] := by simp [gap, hempty]
    have hlead : p.lead = [] := by simp [lead, hempty]
    rw [hempty, hgap, hlead, List.nil_append, List.nil_append]
    exact lead_of_name hslash hname
  · refine lead_append hempty fun hdot => ?_
    have hgap : p.gap = [slash] := by simp [gap, hdot, dot, slash]
    rw [hgap]
    rfl

end InDirectory

end TreeListing.Path
