import Mathlib.Data.List.TakeWhile
import TreeListing.Proofs.Tree.Nest

/-!
# Rebuilding a nest from depths

The deeper entries that follow a first one at once lie below it, and the first entry that
is not as deep starts anew beside it.  `ofList_cons_append` says so, and a nest is rebuilt
along that equation.

* `ofList_labels` : a nest in which each entry is one step deeper than the one it is
  nested in is what its entries describe.
* `exists_find?_parent` : in such a nest the nearest earlier entry of smaller depth is
  exactly one step up.
-/

namespace TreeListing

namespace Nest

variable {α : Type} {depth : α → Nat}

/-! ## One entry more -/

theorem mem_labels_attach {a b : α} {n : Nest α} :
    b ∈ (n.attach depth a).labels ↔ b = a ∨ b ∈ n.labels := by
  induction n with
  | nil => simp [attach, labels]
  | cons label inner next ihInner ihNext =>
      rw [attach]
      split
      · simp only [labels, List.cons_append, List.mem_cons, List.mem_append, ihNext]
        grind
      · split
        · simp only [labels, List.cons_append, List.mem_cons, List.mem_append, ihInner]
          grind
        · simp only [labels, List.cons_append, List.mem_cons, List.mem_append, ihNext]
          grind

theorem holdsShallower_eq_false {n : Nest α} {a : α} (h : ∀ b ∈ n.labels, depth a ≤ depth b) :
    n.holdsShallower depth a = false := by
  simpa [holdsShallower] using h

/-- An entry deeper than the only root goes below it. -/
theorem attach_inner {a b : α} (h : depth a < depth b) (inner : Nest α) :
    (cons a inner nil).attach depth b = cons a (inner.attach depth b) nil := by
  simp [attach, holdsShallower, labels, h]

/-- Nothing goes below a root once an entry stands beside it that is no deeper. -/
theorem attach_next {a b x : α} {inner next : Nest α} (hx : x ∈ next.labels)
    (ha : depth x ≤ depth a) (hinner : ∀ c ∈ inner.labels, depth x ≤ depth c) :
    (cons a inner next).attach depth b = cons a inner (next.attach depth b) := by
  by_cases hb : depth x < depth b
  · have hnext : next.holdsShallower depth b = true :=
      List.any_eq_true.mpr ⟨x, hx, by simpa using hb⟩
    rw [attach, hnext, if_pos rfl]
  · -- `b` is no deeper than `x`, hence no deeper than anything else here.
    have hroot : ¬ depth a < depth b := by omega
    have hbelow : ∀ c ∈ inner.labels, depth b ≤ depth c := by
      intro c hc
      have := hinner c hc
      omega
    rw [attach, holdsShallower_eq_false hbelow]
    simp [hroot]

/-! ## Many entries more -/

theorem mem_labels_foldl {entries : List α} {n : Nest α} {b : α} :
    b ∈ (entries.foldl (fun k a => k.attach depth a) n).labels ↔
      b ∈ entries ∨ b ∈ n.labels := by
  induction entries generalizing n with
  | nil => simp
  | cons a entries ih =>
      rw [List.foldl_cons, ih, mem_labels_attach, List.mem_cons]
      grind

theorem mem_labels_ofList {entries : List α} {b : α} :
    b ∈ (ofList depth entries).labels ↔ b ∈ entries := by
  simp [ofList, mem_labels_foldl, labels]

theorem foldl_attach_inner {a : α} {entries : List α} (h : ∀ b ∈ entries, depth a < depth b)
    (inner : Nest α) :
    entries.foldl (fun n b => n.attach depth b) (cons a inner nil) =
      cons a (entries.foldl (fun n b => n.attach depth b) inner) nil := by
  induction entries generalizing inner with
  | nil => rfl
  | cons b entries ih =>
      rw [List.foldl_cons, List.foldl_cons, attach_inner (h b List.mem_cons_self),
        ih fun c hc => h c (List.mem_cons_of_mem _ hc)]

theorem foldl_attach_next {a x : α} {inner next : Nest α} (hx : x ∈ next.labels)
    (ha : depth x ≤ depth a) (hinner : ∀ c ∈ inner.labels, depth x ≤ depth c)
    (entries : List α) :
    entries.foldl (fun n b => n.attach depth b) (cons a inner next) =
      cons a inner (entries.foldl (fun n b => n.attach depth b) next) := by
  induction entries generalizing next with
  | nil => rfl
  | cons b entries ih =>
      rw [List.foldl_cons, List.foldl_cons, attach_next hx ha hinner,
        ih (mem_labels_attach.mpr (Or.inr hx))]

/-- The deeper entries that follow a first one at once lie below it, the others beside
it. -/
theorem ofList_cons_append {a : α} {below beside : List α}
    (hbelow : ∀ b ∈ below, depth a < depth b) (hbeside : ∀ b ∈ beside.head?, depth b ≤ depth a) :
    ofList depth (a :: (below ++ beside)) =
      cons a (ofList depth below) (ofList depth beside) := by
  rw [ofList, List.foldl_cons, List.foldl_append, attach, foldl_attach_inner hbelow]
  change beside.foldl _ (cons a (ofList depth below) nil) = _
  cases beside with
  | nil => rfl
  | cons x beside =>
      have hx : depth x ≤ depth a := hbeside x rfl
      have hinner : ∀ c ∈ (ofList depth below).labels, depth x ≤ depth c := by
        intro c hc
        have := hbelow c (mem_labels_ofList.mp hc)
        omega
      have hfirst : (cons a (ofList depth below) nil).attach depth x =
          cons a (ofList depth below) (cons x nil nil) := by
        rw [attach, holdsShallower_eq_false hinner]
        simp [attach, holdsShallower, labels, hx]
      rw [List.foldl_cons, hfirst, foldl_attach_next (by simp [labels]) hx hinner]
      rfl

/-- A list of entries is split at its first entry that is not deeper than `d`. -/
theorem exists_split (depth : α → Nat) (d : Nat) (entries : List α) :
    ∃ below beside, entries = below ++ beside ∧ (∀ b ∈ below, d < depth b) ∧
      ∀ b ∈ beside.head?, depth b ≤ d := by
  refine ⟨entries.takeWhile fun b => d < depth b, entries.dropWhile fun b => d < depth b,
    List.takeWhile_append_dropWhile.symm, ?_, ?_⟩
  · intro b hb
    simpa using List.mem_takeWhile_imp hb
  · intro b hb
    have h := List.head?_dropWhile_not (fun b => decide (d < depth b)) entries
    rw [Option.mem_def.mp hb] at h
    simpa using h

/-- Induction along the way that a list of entries is nested: a first entry, what lies
below it, and what starts anew beside it. -/
theorem split_induction (depth : α → Nat) {P : List α → Prop} (hnil : P [])
    (hcons : ∀ a below beside, (∀ b ∈ below, depth a < depth b) →
      (∀ b ∈ beside.head?, depth b ≤ depth a) → P below → P beside → P (a :: (below ++ beside)))
    (entries : List α) : P entries := by
  induction hn : entries.length using Nat.strong_induction_on generalizing entries with
  | _ n ih =>
      cases entries with
      | nil => exact hnil
      | cons a rest =>
          obtain ⟨below, beside, rfl, hbelow, hbeside⟩ := exists_split depth (depth a) rest
          simp only [List.length_cons, List.length_append] at hn
          exact hcons a below beside hbelow hbeside (ih below.length (by omega) below rfl)
            (ih beside.length (by omega) beside rfl)

/-! ## Levelled nests -/

/-- The roots have the given depth, and nested entries are one step deeper. -/
def Levelled (depth : α → Nat) (step : Nat) : Nat → Nest α → Prop
  | _, nil => True
  | d, cons label inner next =>
      depth label = d ∧ inner.Levelled depth step (d + step) ∧ next.Levelled depth step d

theorem Levelled.le_of_mem {step d : Nat} {n : Nest α} (hn : n.Levelled depth step d) {a : α}
    (ha : a ∈ n.labels) : d ≤ depth a := by
  induction n generalizing d with
  | nil => simp [labels] at ha
  | cons label inner next ihInner ihNext =>
      obtain ⟨hlabel, hinner, hnext⟩ := hn
      simp only [labels, List.cons_append, List.mem_cons, List.mem_append] at ha
      rcases ha with rfl | ha | ha
      · omega
      · have := ihInner hinner ha
        omega
      · exact ihNext hnext ha

/-- The first entry of a levelled nest is a root. -/
theorem Levelled.head?_labels {step d : Nat} {n : Nest α} (hn : n.Levelled depth step d) :
    ∀ a ∈ n.labels.head?, depth a = d := by
  cases n with
  | nil => simp [labels]
  | cons label inner next => simpa [labels] using hn.1

/-- A levelled nest is what the list of its entries describes. -/
theorem ofList_labels {step d : Nat} (hstep : 0 < step) {n : Nest α}
    (hn : n.Levelled depth step d) : ofList depth n.labels = n := by
  induction n generalizing d with
  | nil => rfl
  | cons label inner next ihInner ihNext =>
      obtain ⟨rfl, hinner, hnext⟩ := hn
      have hbelow : ∀ b ∈ inner.labels, depth label < depth b := by
        intro b hb
        have := hinner.le_of_mem hb
        omega
      have hbeside : ∀ b ∈ next.labels.head?, depth b ≤ depth label :=
        fun b hb => Nat.le_of_eq (hnext.head?_labels b hb)
      rw [labels, List.cons_append, ofList_cons_append hbelow hbeside, ihInner hinner,
        ihNext hnext]

/-! ## Parents -/

/-- Below an entry that the roots are one step deeper than, every entry is one step deeper
than the nearest earlier entry of smaller depth. -/
theorem Levelled.exists_find?_parent {step d : Nat} (hstep : 0 < step) {n : Nest α}
    (hn : n.Levelled depth step d) {earlier : List α} {top : α}
    (htop : earlier.find? (fun b => depth b < d) = some top) (hd : d = depth top + step)
    {before after : List α} {a : α} (h : n.labels = before ++ a :: after) :
    ∃ parent, (before.reverse ++ earlier).find? (fun b => depth b < depth a) = some parent ∧
      depth a = depth parent + step := by
  induction n generalizing d earlier top before after with
  | nil => simp [labels] at h
  | cons label inner next ihInner ihNext =>
      obtain ⟨hlabel, hinner, hnext⟩ := hn
      cases before with
      | nil =>
          simp only [labels, List.cons_append, List.nil_append, List.cons.injEq] at h
          obtain ⟨rfl, _⟩ := h
          exact ⟨top, by simpa [hlabel] using htop, by omega⟩
      | cons first before =>
          simp only [labels, List.cons_append, List.cons.injEq] at h
          obtain ⟨rfl, h⟩ := h
          -- Seen from inside, the entry itself is the nearest above; seen from beside it,
          -- neither it nor anything inside is.
          have hinside : (label :: earlier).find? (fun b => depth b < d + step) = some label := by
            simp [hlabel, hstep]
          have hbeside : (inner.labels.reverse ++ label :: earlier).find?
              (fun b => depth b < d) = some top := by
            have hskip : ∀ b ∈ inner.labels.reverse ++ [label], ¬ depth b < d := by
              intro b hb
              simp only [List.mem_append, List.mem_reverse, List.mem_singleton] at hb
              rcases hb with hb | rfl
              · have := hinner.le_of_mem hb
                omega
              · omega
            rw [List.append_cons, List.find?_append,
              List.find?_eq_none.mpr (by simpa using hskip)]
            exact htop
          rcases List.append_eq_append_iff.mp h with ⟨skipped, rfl, hrest⟩ | ⟨skipped, hrest, hlast⟩
          · obtain ⟨parent, hfind, hparent⟩ := ihNext hnext hbeside hd hrest
            exact ⟨parent, by simpa using hfind, hparent⟩
          · cases skipped with
            | nil =>
                have hfirst : next.labels = [] ++ a :: after := hlast.symm
                rw [List.append_nil] at hrest
                obtain ⟨parent, hfind, hparent⟩ := ihNext hnext hbeside hd hfirst
                exact ⟨parent, by simpa [hrest] using hfind, hparent⟩
            | cons first skipped =>
                simp only [List.cons_append, List.cons.injEq] at hlast
                obtain ⟨rfl, _⟩ := hlast
                obtain ⟨parent, hfind, hparent⟩ := ihInner hinner hinside (by omega) hrest
                exact ⟨parent, by simpa using hfind, hparent⟩

/-- Below an only root, every entry is one step deeper than the nearest earlier entry of
smaller depth. -/
theorem Levelled.exists_find?_of_root {step d : Nat} (hstep : 0 < step) {root : α}
    {inner : Nest α} (hn : (cons root inner nil).Levelled depth step d) {before after : List α}
    {a : α} (h : (cons root inner nil).labels = before ++ a :: after) (hbefore : before ≠ []) :
    ∃ parent, before.reverse.find? (fun b => depth b < depth a) = some parent ∧
      depth a = depth parent + step := by
  obtain ⟨hroot, hinner, _⟩ := hn
  cases before with
  | nil => exact absurd rfl hbefore
  | cons first before =>
      simp only [labels, List.append_nil, List.cons_append, List.cons.injEq] at h
      obtain ⟨rfl, h⟩ := h
      have htop : [root].find? (fun b => depth b < d + step) = some root := by
        simp [hroot, hstep]
      obtain ⟨parent, hfind, hparent⟩ :=
        hinner.exists_find?_parent hstep htop (by omega) h
      exact ⟨parent, by rwa [List.reverse_cons], hparent⟩

end Nest

end TreeListing
