import Mathlib.Data.List.TakeWhile
import TreeListing.Path

/-!
# Names along a path

What a path asks for are the parts that name something; empty parts and single dots are
passed over.  A path is its lead and its parts (`lead_append_drop`), and neither the lead
nor the inert parts at the end hold a name (`named_parts`).  Joining two paths puts their
names in a row (`names_join`), and in a row of paths it does not matter which are joined first
(`join_assoc`).
-/

namespace TreeListing.Path

/-! ## Parts -/

theorem split_eq_splitOn (b : Bytes) : split b = b.splitOn slash := by
  induction b with
  | nil => rfl
  | cons x b ih =>
      rw [split, ih, List.splitOn_cons_eq_if_modifyHead]
      by_cases hx : x = slash
      · simp [hx]
      · cases hb : b.splitOn slash with
        | nil => exact absurd hb (List.splitOn_ne_nil _ _)
        | cons part parts => simp [hx]

theorem split_append_slash (a b : Bytes) : split (a ++ slash :: b) = split a ++ split b := by
  simp only [split_eq_splitOn, List.splitOn_append_cons_self]

theorem split_of_not_mem {b : Bytes} (h : slash ∉ b) : split b = [b] := by
  rw [split_eq_splitOn, List.splitOn_eq_singleton h]

theorem slash_notMem_of_mem_split {b part : Bytes} (h : part ∈ split b) : slash ∉ part := by
  induction b generalizing part with
  | nil =>
      rw [split, List.mem_singleton] at h
      simp [h]
  | cons x b ih =>
      rw [split_eq_splitOn, List.splitOn_cons_eq_if_modifyHead, ← split_eq_splitOn] at h
      by_cases hx : x = slash
      · simp only [hx, beq_self_eq_true, if_true, List.mem_cons] at h
        rcases h with rfl | h
        · simp
        · exact ih h
      · simp only [beq_iff_eq, hx, if_false] at h
        cases hb : split b with
        | nil => simp [hb] at h
        | cons first parts =>
            rw [hb, List.modifyHead_cons, List.mem_cons] at h
            rw [hb] at ih
            rcases h with rfl | h
            · simpa [Ne.symm hx] using ih List.mem_cons_self
            · exact ih (List.mem_cons_of_mem _ h)

/-- More parts stand behind a separator each. -/
theorem intercalate_append {xs : List Bytes} (h : xs ≠ []) (ys : List Bytes) :
    [slash].intercalate (xs ++ ys) = [slash].intercalate xs ++ ys.flatMap (slash :: ·) := by
  have hcons : ∀ y (ys : List Bytes),
      [slash].intercalate (y :: ys) = y ++ ys.flatMap (slash :: ·) := by
    intro y ys
    induction ys generalizing y with
    | nil => simp
    | cons z ys ih => simp [List.intercalate_cons_cons, ih]
  obtain ⟨x, xs, rfl⟩ := List.exists_cons_of_ne_nil h
  rw [List.cons_append, hcons, hcons, List.flatMap_append, List.append_assoc]

/-- All parts before the last stand before a separator. -/
theorem intercalate_concat (xs : List Bytes) (last : Bytes) :
    [slash].intercalate (xs ++ [last]) = xs.flatMap (· ++ [slash]) ++ last := by
  induction xs with
  | nil => simp
  | cons x xs ih =>
      obtain ⟨y, ys, hcons⟩ : ∃ y ys, xs ++ [last] = y :: ys :=
        List.exists_cons_of_ne_nil (by simp)
      rw [List.cons_append, hcons, List.intercalate_cons_cons, ← hcons, ih]
      simp

/-- The parts up to some point make up the bytes up to some point. -/
theorem intercalate_isPrefix {xs ys : List Bytes} (h : xs <+: ys) :
    [slash].intercalate xs <+: [slash].intercalate ys := by
  obtain ⟨zs, rfl⟩ := h
  cases xs with
  | nil => exact List.nil_prefix
  | cons x xs =>
      rw [intercalate_append (by simp)]
      exact List.prefix_append _ _

/-! ## Names -/

/-- The parts that name something. -/
def named (parts : List Bytes) : List Bytes :=
  parts.filter (!inert ·)

@[simp] theorem named_nil : named [] = [] := rfl

@[simp] theorem named_split_nil : named (split []) = [] := rfl

@[simp] theorem named_append (xs ys : List Bytes) : named (xs ++ ys) = named xs ++ named ys :=
  List.filter_append ..

theorem named_cons_of_inert {part : Bytes} (h : inert part = true) (parts : List Bytes) :
    named (part :: parts) = named parts := by
  simp [named, h]

theorem named_cons_of_not_inert {part : Bytes} (h : inert part = false) (parts : List Bytes) :
    named (part :: parts) = part :: named parts := by
  simp [named, h]

/-- The names that a path asks for one after the other; the parent's name is one too. -/
def names (p : Path) : List Bytes :=
  named (split p.bytes)

theorem dropInert_isPrefix (parts : List Bytes) : dropInert parts <+: parts := by
  rw [dropInert, ← List.reverse_suffix, List.reverse_reverse]
  exact List.dropWhile_suffix _

theorem exists_dropInert_append (parts : List Bytes) :
    ∃ rest, parts = dropInert parts ++ rest ∧ ∀ part ∈ rest, inert part = true := by
  have hback := List.takeWhile_append_dropWhile (p := inert) (l := parts.reverse)
  refine ⟨(parts.reverse.takeWhile inert).reverse, ?_, fun part hpart => ?_⟩
  · rw [dropInert, ← List.reverse_append, hback, List.reverse_reverse]
  · exact List.mem_takeWhile_imp (List.mem_reverse.mp hpart)

theorem named_of_inert {parts : List Bytes} (h : ∀ part ∈ parts, inert part = true) :
    named parts = [] := by
  rw [named, List.filter_eq_nil_iff]
  intro part hpart
  simp [h part hpart]

theorem named_dropInert (parts : List Bytes) : named (dropInert parts) = named parts := by
  obtain ⟨rest, hparts, hinert⟩ := exists_dropInert_append parts
  calc named (dropInert parts)
      = named (dropInert parts) ++ named rest := by rw [named_of_inert hinert, List.append_nil]
    _ = named parts := by rw [← named_append, ← hparts]

/-- What is left after the inert parts at the end does not end in an inert part. -/
theorem inert_getLast_dropInert {parts : List Bytes} {last : Bytes}
    (h : (dropInert parts).getLast? = some last) : inert last = false := by
  rw [dropInert, List.getLast?_reverse] at h
  have hhead := List.head?_dropWhile_not inert parts.reverse
  rw [h] at hhead
  simpa using hhead

@[simp] theorem dropInert_concat_of_inert {part : Bytes} (h : inert part = true)
    (parts : List Bytes) : dropInert (parts ++ [part]) = dropInert parts := by
  simp [dropInert, h]

@[simp] theorem dropInert_concat {part : Bytes} (h : inert part = false) (parts : List Bytes) :
    dropInert (parts ++ [part]) = parts ++ [part] := by
  simp [dropInert, h]

/-! ## The last part -/

/-- The last part of a path is that of what follows a separator. -/
theorem getLast?_split_append {a b : Bytes} (h : a = [] ∨ a.getLast? = some slash ∨
    b.head? = some slash) : (split (a ++ b)).getLast? = (split b).getLast? := by
  have hne : ∀ c, split c ≠ [] := fun c => by
    rw [split_eq_splitOn]
    exact List.splitOn_ne_nil _ _
  have happend : ∀ (front : List Bytes) (c : Bytes),
      (front ++ split c).getLast? = (split c).getLast? := fun front c => by
    rw [List.getLast?_append, List.getLast?_eq_some_getLast (hne c), Option.some_or]
  rcases h with rfl | h | h
  · rfl
  · obtain ⟨front, rfl⟩ := List.getLast?_eq_some_iff.mp h
    rw [List.append_assoc, List.singleton_append, split_append_slash, happend]
  · obtain ⟨rest, rfl⟩ := List.head?_eq_some_iff.mp h
    have hcons : split (slash :: rest) = [] :: split rest := by
      rw [split, if_pos rfl]
    rw [split_append_slash, happend, hcons, List.getLast?_cons_of_ne_nil (hne rest)]

/-! ## The lead -/

theorem lead_isPrefix (p : Path) : p.lead <+: p.bytes := by
  unfold lead
  split
  · next b rest h =>
      rw [h]
      split
      · next hb => exact ⟨rest, by simp [hb]⟩
      · split
        · next hb =>
            simp only [Bool.and_eq_true, decide_eq_true_eq] at hb
            exact ⟨rest, by simp [hb.1]⟩
        · exact List.nil_prefix
  · exact List.nil_prefix

theorem lead_append_drop (p : Path) : p.lead ++ p.bytes.drop p.lead.length = p.bytes := by
  obtain ⟨rest, h⟩ := lead_isPrefix p
  rw [← h, List.drop_left]

/-- The lead is nothing, a slash, or a dot that a slash or nothing follows. -/
theorem lead_cases (p : Path) :
    (p.lead = [] ∧ p.isAbsolute = false) ∨ (p.lead = [slash] ∧ p.isAbsolute = true) ∨
      (p.lead = [dot] ∧ p.isAbsolute = false ∧
        (p.bytes = [dot] ∨ ∃ rest, p.bytes = dot :: slash :: rest)) := by
  have hslash : dot ≠ slash := by decide
  cases hp : p.bytes with
  | nil => simp [lead, isAbsolute, hp]
  | cons b rest =>
      by_cases hb : b = slash
      · simp [lead, isAbsolute, hp, hb]
      · by_cases hd : b = dot
        · cases rest with
          | nil => simp [lead, isAbsolute, hp, hd, hslash]
          | cons c rest =>
              by_cases hc : c = slash
              · simp [lead, isAbsolute, hp, hd, hslash, hc]
              · simp [lead, isAbsolute, hp, hd, hslash, hc]
        · simp [lead, isAbsolute, hp, hb, hd]

/-- What comes after a lead begins with the lead's end. -/
theorem named_split_lead (p : Path) (rest : Bytes)
    (h : p.lead = [dot] → rest = [] ∨ ∃ tail, rest = slash :: tail) :
    named (split (p.lead ++ rest)) = named (split rest) := by
  have hempty : inert ([] : Bytes) = true := rfl
  have hdot : inert [dot] = true := by decide
  have hslash : slash ∉ ([dot] : Bytes) := by decide
  rcases lead_cases p with ⟨hl, _⟩ | ⟨hl, _⟩ | ⟨hl, _, _⟩
  · simp [hl]
  · rw [hl]
    exact named_cons_of_inert hempty _
  · rw [hl]
    rcases h hl with rfl | ⟨tail, rfl⟩
    · rw [List.append_nil, split_of_not_mem hslash, named_cons_of_inert hdot]
      exact (named_cons_of_inert hempty _).symm
    · rw [split_append_slash, split_of_not_mem hslash, List.singleton_append,
        named_cons_of_inert hdot]
      exact (named_cons_of_inert hempty _).symm

theorem drop_lead_of_dot {p : Path} (h : p.lead = [dot]) :
    p.bytes.drop p.lead.length = [] ∨ ∃ tail, p.bytes.drop p.lead.length = slash :: tail := by
  have hslash : [dot] ≠ [slash] := by decide
  rcases lead_cases p with ⟨hl, _⟩ | ⟨hl, _⟩ | ⟨hl, _, hp⟩
  · simp [h] at hl
  · exact absurd (h.symm.trans hl) hslash
  · rcases hp with hp | ⟨tail, hp⟩
    · simp [hl, hp]
    · simp [hl, hp]

theorem named_parts (p : Path) : named p.parts = p.names := by
  rw [parts, named_dropInert, ← named_split_lead p _ drop_lead_of_dot, lead_append_drop, names]

theorem inert_getLast_parts {p : Path} {last : Bytes} (h : p.parts.getLast? = some last) :
    inert last = false :=
  inert_getLast_dropInert h

/-! ## Joining -/

/-- What stands between a path and what is joined on to it: a separator, unless the path is empty
or ends in one. -/
def gap (p : Path) : Bytes :=
  if p.bytes.isEmpty || p.bytes.getLast? == some slash then [] else [slash]

/-- An absolute path is the same from everywhere. -/
theorem join_of_isAbsolute {q : Path} (h : q.isAbsolute = true) (p : Path) : p.join q = q := by
  rw [join, if_pos h]

theorem join_of_relative {q : Path} (h : q.isAbsolute = false) (p : Path) :
    p.join q = ⟨p.bytes ++ p.gap ++ q.bytes⟩ := by
  rw [join, if_neg (by simp [h]), gap]
  split <;> simp

/-- What is joined on to a path begins a part. -/
theorem append_gap_cases (p : Path) :
    p.bytes ++ p.gap = [] ∨ (p.bytes ++ p.gap).getLast? = some slash := by
  rw [gap]
  split
  · next h =>
      simp only [Bool.or_eq_true, List.isEmpty_iff, beq_iff_eq] at h
      rwa [List.append_nil]
  · exact .inr (by simp)

theorem named_split_gap (p : Path) : named (split (p.bytes ++ p.gap)) = p.names := by
  rw [gap]
  split
  · rw [List.append_nil, names]
  · rw [split_append_slash, named_append, named_split_nil, List.append_nil, names]

/-- Names before and after a separator are in a row. -/
theorem named_split_append {front : Bytes} (h : front = [] ∨ front.getLast? = some slash)
    (b : Bytes) : named (split (front ++ b)) = named (split front) ++ named (split b) := by
  rcases h with rfl | h
  · rfl
  · obtain ⟨front, rfl⟩ := List.getLast?_eq_some_iff.mp h
    rw [List.append_assoc, List.singleton_append, split_append_slash, split_append_slash,
      named_append, named_append, named_split_nil, List.append_nil]

/-- Joined paths ask for the names of both; an absolute path forgets the first. -/
theorem names_join (p q : Path) :
    (p.join q).names = if q.isAbsolute then q.names else p.names ++ q.names := by
  cases hq : q.isAbsolute with
  | true => rw [join_of_isAbsolute hq, if_pos rfl]
  | false =>
      rw [join_of_relative hq, if_neg Bool.false_ne_true, names,
        named_split_append p.append_gap_cases, named_split_gap]
      rfl

theorem isAbsolute_join (p q : Path) :
    (p.join q).isAbsolute = (p.isAbsolute || q.isAbsolute) := by
  unfold join
  cases hq : q.isAbsolute with
  | true => simp [hq]
  | false =>
      have hhead : q.bytes.head? ≠ some slash := by simpa [isAbsolute] using hq
      cases hp : p.bytes with
      | nil => simp [isAbsolute, hp, hhead]
      | cons b rest =>
          simp only [Bool.false_eq_true, if_false]
          split <;> simp [isAbsolute, hp]

/-- A path with its gap needs no other. -/
theorem gap_append_gap (p : Path) : (⟨p.bytes ++ p.gap⟩ : Path).gap = [] := by
  rw [gap, if_pos (by simpa using p.append_gap_cases)]

theorem gap_append (b : Bytes) {q : Path} (h : q.bytes ≠ []) :
    (⟨b ++ q.bytes⟩ : Path).gap = q.gap := by
  obtain ⟨last, hlast⟩ : ∃ last, q.bytes.getLast? = some last :=
    ⟨_, List.getLast?_eq_some_getLast h⟩
  simp [gap, h, List.getLast?_append, hlast]

/-- Joining is associative, byte for byte. -/
theorem join_assoc (p q r : Path) : p.join (q.join r) = (p.join q).join r := by
  cases hr : r.isAbsolute with
  | true => simp only [join_of_isAbsolute hr]
  | false =>
      cases hq : q.isAbsolute with
      | true =>
          have hjoin : (q.join r).isAbsolute = true := by simp [isAbsolute_join, hq]
          rw [join_of_isAbsolute hjoin, join_of_isAbsolute hq]
      | false =>
          have hjoin : (q.join r).isAbsolute = false := by simp [isAbsolute_join, hq, hr]
          rw [join_of_relative hjoin, join_of_relative hr, join_of_relative hq, join_of_relative hr]
          -- an empty middle path leaves the gap of the first, which needs no other
          by_cases hempty : q.bytes = []
          · have hnone : q.gap = [] := by simp [gap, hempty]
            simp [hempty, hnone, gap_append_gap]
          · rw [gap_append _ hempty]
            simp only [List.append_assoc]

theorem getLast?_split_join (p q : Path) :
    (split (p.join q).bytes).getLast? = (split q.bytes).getLast? := by
  cases hq : q.isAbsolute with
  | true => rw [join_of_isAbsolute hq]
  | false =>
      rw [join_of_relative hq]
      exact getLast?_split_append (p.append_gap_cases.imp_right .inl)

end TreeListing.Path
