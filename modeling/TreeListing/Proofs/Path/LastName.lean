import TreeListing.Proofs.Path.Names

/-!
# The last name of a path

The name of a path is the last of its names, unless that is the parent's (`name?_eq`).  In the
bytes of the path it stands behind a separator, or at the start, and nothing but separators and
single dots follow it (`name?_eq_some_iff`).  Since joining puts names in a row, a path that has a
name gives it to every path that ends in it (`name?_join`).

A name is cut at its last dot (`splitLastDot_eq_some_iff`), into a stem and an extension unless
nothing is before that dot (`extension?_eq_some_iff`).
-/

namespace TreeListing.Path

/-! ## The name of a path -/

theorem getLast?_dropInert (parts : List Bytes) :
    (dropInert parts).getLast? = (named parts).getLast? := by
  rw [← named_dropInert]
  rcases List.eq_nil_or_concat (dropInert parts) with hnil | ⟨front, last, hlast⟩
  · rw [hnil, named_nil]
  · rw [List.concat_eq_append] at hlast
    have hinert : inert last = false := inert_getLast_dropInert (by rw [hlast]; simp)
    rw [hlast, named_append, named_cons_of_not_inert hinert, named_nil]
    simp

/-- The name of a path is its last name, if that is not the parent's. -/
theorem name?_eq (p : Path) : p.name? = p.names.getLast?.filter (· != up) := by
  have hparts : p.parts.getLast? = p.names.getLast? := by
    rw [← named_parts, parts, named_dropInert, getLast?_dropInert]
  rw [name?, hparts]

/-- A path that ends in a plain name has that name. -/
theorem name?_of_getLast?_split {p : Path} {name : Bytes}
    (h : (split p.bytes).getLast? = some name) (hinert : inert name = false)
    (hup : name ≠ up) : p.name? = some name := by
  obtain ⟨front, hfront⟩ := List.getLast?_eq_some_iff.mp h
  rw [name?_eq, names, hfront, named_append, named_cons_of_not_inert hinert, named_nil]
  simp [hup]

/-- A path that ends in a path with a name has that name. -/
theorem name?_join {q : Path} {name : Bytes} (h : q.name? = some name) (p : Path) :
    (p.join q).name? = some name := by
  rw [name?_eq, names_join]
  split
  · rwa [← name?_eq]
  · rw [name?_eq, Option.filter_eq_some_iff] at h
    rw [List.getLast?_append, h.1, Option.some_or, Option.filter_eq_some_iff]
    exact ⟨rfl, h.2⟩

/-! ## The name in the bytes -/

/-- What may follow the last name of a path: separators, and single dots behind them. -/
inductive Trailing : Bytes → Prop where
  | nil : Trailing []
  | separator {tail : Bytes} : Trailing tail → Trailing (slash :: tail)
  | single {tail : Bytes} : Trailing tail → Trailing (slash :: dot :: tail)

/-- A path has a name: it stands in the path behind a separator or at the start, and nothing that
names anything follows it. -/
structure HasName (p : Path) (name : Bytes) : Prop where
  slash_notMem : slash ∉ name
  ne_nil : name ≠ []
  ne_dot : name ≠ [dot]
  ne_up : name ≠ up
  cut : ∃ front tail, p.bytes = front ++ name ++ tail ∧
    (front = [] ∨ front.getLast? = some slash) ∧ Trailing tail

theorem inert_eq_false_iff {part : Bytes} : inert part = false ↔ part ≠ [] ∧ part ≠ [dot] := by
  simp [inert]

theorem trailing_flatMap {parts : List Bytes} (h : ∀ part ∈ parts, inert part = true) :
    Trailing (parts.flatMap (slash :: ·)) := by
  induction parts with
  | nil => exact .nil
  | cons part parts ih =>
      have htail := ih fun part hpart => h part (List.mem_cons_of_mem _ hpart)
      have hpart : part = [] ∨ part = [dot] := by simpa [inert] using h part List.mem_cons_self
      rcases hpart with rfl | rfl
      · exact .separator htail
      · exact .single htail

/-- What follows the last name asks for nothing. -/
theorem Trailing.named_split_append {tail : Bytes} (h : Trailing tail) (b : Bytes) :
    named (split (b ++ tail)) = named (split b) := by
  induction h generalizing b with
  | nil => rw [List.append_nil]
  | @separator tail _ ih =>
      have hnone : named (split tail) = [] := ih []
      rw [split_append_slash, named_append, hnone, List.append_nil]
  | @single tail _ ih =>
      have hnone : named (split (dot :: tail)) = [] := ih [dot]
      rw [split_append_slash, named_append, hnone, List.append_nil]

/-- The last name of some bytes, found in them. -/
theorem exists_cut_of_getLast? {b name : Bytes} (h : (named (split b)).getLast? = some name) :
    ∃ front tail, b = front ++ name ++ tail ∧ (front = [] ∨ front.getLast? = some slash) ∧
      Trailing tail := by
  rw [← getLast?_dropInert] at h
  -- the parts before the name stand before a separator each, the inert ones after it behind one
  obtain ⟨parts, hparts⟩ := List.getLast?_eq_some_iff.mp h
  obtain ⟨rest, hsplit, hinert⟩ := exists_dropInert_append (split b)
  have hbytes : b = [slash].intercalate (split b) := by
    rw [split_eq_splitOn, List.intercalate_splitOn]
  refine ⟨parts.flatMap (· ++ [slash]), rest.flatMap (slash :: ·), ?_, ?_, trailing_flatMap hinert⟩
  · rw [hsplit, hparts, intercalate_append (by simp), intercalate_concat] at hbytes
    exact hbytes
  · rcases List.eq_nil_or_concat parts with rfl | ⟨front, last, rfl⟩
    · exact .inl rfl
    · exact .inr (by simp)

/-- The name of a path is the one that it has in its bytes. -/
theorem name?_eq_some_iff {p : Path} {name : Bytes} : p.name? = some name ↔ p.HasName name := by
  rw [name?_eq, Option.filter_eq_some_iff, bne_iff_ne]
  constructor
  · rintro ⟨hlast, hup⟩
    have hmem : name ∈ named (split p.bytes) := List.mem_of_getLast? hlast
    rw [named, List.mem_filter, Bool.not_eq_true', inert_eq_false_iff] at hmem
    exact ⟨slash_notMem_of_mem_split hmem.1, hmem.2.1, hmem.2.2, hup, exists_cut_of_getLast? hlast⟩
  · intro h
    obtain ⟨front, tail, hbytes, hfront, htail⟩ := h.cut
    have hname : inert name = false := inert_eq_false_iff.mpr ⟨h.ne_nil, h.ne_dot⟩
    refine ⟨?_, h.ne_up⟩
    rw [names, hbytes, htail.named_split_append, named_split_append hfront,
      split_of_not_mem h.slash_notMem, named_cons_of_not_inert hname, named_nil]
    simp

/-! ## Stem and extension -/

/-- A name is split at its last dot. -/
theorem splitLastDot_append (before : Bytes) {after : Bytes} (h : dot ∉ after) :
    splitLastDot (before ++ dot :: after) = some (before, after) := by
  have hback : (before ++ dot :: after).reverse = after.reverse ++ dot :: before.reverse := by
    simp
  have hkeep : ∀ b ∈ after.reverse, (b != dot) = true := by
    intro b hb
    rw [bne_iff_ne]
    rintro rfl
    exact h (List.mem_reverse.mp hb)
  rw [splitLastDot, if_pos (by simp), hback]
  dsimp only
  rw [List.dropWhile_append_of_pos hkeep, List.takeWhile_append_of_pos hkeep]
  simp

theorem splitLastDot_eq_some_iff {name before after : Bytes} :
    splitLastDot name = some (before, after) ↔ name = before ++ dot :: after ∧ dot ∉ after := by
  constructor
  · intro h
    have hmem : dot ∈ name.reverse := by
      unfold splitLastDot at h
      split at h
      · next hdot => simpa using hdot
      · simp at h
    obtain ⟨back, front, hname, hback⟩ := List.eq_append_cons_of_mem hmem
    obtain rfl : name = front.reverse ++ dot :: back.reverse := by
      rw [← List.reverse_reverse name, hname]
      simp
    have hafter : dot ∉ back.reverse := by simpa using hback
    rw [splitLastDot_append _ hafter, Option.some.injEq, Prod.mk.injEq] at h
    obtain ⟨rfl, rfl⟩ := h
    exact ⟨rfl, hafter⟩
  · rintro ⟨rfl, h⟩
    exact splitLastDot_append before h

/-- A stem is what its name begins with. -/
theorem stem?_isPrefix {p : Path} {stem : Bytes} (h : p.stem? = some stem) :
    ∃ name, p.HasName name ∧ stem <+: name := by
  obtain ⟨name, hname, hstem⟩ := Option.map_eq_some_iff.mp h
  refine ⟨name, name?_eq_some_iff.mp hname, ?_⟩
  split at hstem
  · next before after hsplit =>
      rw [(splitLastDot_eq_some_iff.mp hsplit).1] at hstem ⊢
      split at hstem
      · exact hstem ▸ List.prefix_rfl
      · exact hstem ▸ List.prefix_append _ _
  · exact hstem ▸ List.prefix_rfl

theorem slash_notMem_of_stem? {p : Path} {stem : Bytes} (h : p.stem? = some stem) :
    slash ∉ stem := by
  obtain ⟨name, hname, hstem⟩ := stem?_isPrefix h
  exact fun hmem => hname.slash_notMem (hstem.subset hmem)

/-- An extension follows the last dot of a name, if something is before that dot. -/
theorem extension?_eq_some_iff {p : Path} {extension : Bytes} :
    p.extension? = some extension ↔
      ∃ stem, p.HasName (stem ++ dot :: extension) ∧ stem ≠ [] ∧ dot ∉ extension := by
  rw [extension?, Option.bind_eq_some_iff]
  constructor
  · rintro ⟨name, hname, hextension⟩
    split at hextension
    · next before after hsplit =>
        obtain ⟨rfl, hafter⟩ := splitLastDot_eq_some_iff.mp hsplit
        split at hextension
        · simp at hextension
        · next hbefore =>
            obtain rfl : after = extension := Option.some.inj hextension
            exact ⟨before, name?_eq_some_iff.mp hname, by simpa using hbefore, hafter⟩
    · simp at hextension
  · rintro ⟨stem, hname, hstem, hextension⟩
    refine ⟨_, name?_eq_some_iff.mpr hname, ?_⟩
    rw [splitLastDot_append stem hextension]
    simp [hstem]

end TreeListing.Path
