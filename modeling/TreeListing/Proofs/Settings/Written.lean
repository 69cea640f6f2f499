import Mathlib.Data.List.Nodup
import TreeListing.Proofs.Settings.Effective
import TreeListing.Proofs.Yaml.Items

/-!
# Reading back written settings

Settings that are written as a mapping with an entry on each line read back just when each key is
the name of an entry and none is given twice.  Reading goes through the items of the document in
order and keeps what the entries so far give, so the settings are those of `SettingsEntries.among`,
the lookup in the entries.

Other entries have a first one that is wrong.  The entries before it are read, and reading fails at
its key: the key is unknown, or given before, or so long that the text is no mapping there.
-/

namespace TreeListing

open Yaml (Document Item Mark mappingText texts textItem)
open Yaml.Quoted (Style quoted)

namespace SettingsEntries

/-! ## Looking up in entries -/

/-- What entries give. -/
def among (entries : List (String × String)) : SettingsEntries :=
  ⟨entries.lookup SettingsField.inputs.name, entries.lookup SettingsField.outputs.name⟩

theorem get?_among (entries : List (String × String)) (field : SettingsField) :
    (among entries).get? field = entries.lookup field.name := by
  cases field <;> rfl

theorem get?_among_eq_none {entries : List (String × String)} {field : SettingsField} :
    (among entries).get? field = none ↔ field.name ∉ entries.map Prod.fst := by
  rw [get?_among, List.lookup_eq_none_iff]
  simp only [bne_iff_ne, ne_eq, List.mem_map, not_exists, not_and, eq_comm (a := field.name)]

/-- If no key occurs twice, each entry counts. -/
theorem get?_among_of_mem {entries : List (String × String)} (honce : (entries.map Prod.fst).Nodup)
    {field : SettingsField} {value : String} (h : (field.name, value) ∈ entries) :
    (among entries).get? field = some value := by
  obtain ⟨front, back, rfl⟩ := List.append_of_mem h
  rw [get?_among, List.lookup_eq_some_iff]
  refine ⟨front, back, rfl, fun e he => ?_⟩
  rw [List.map_append, List.nodup_append] at honce
  have hne : e.1 ≠ field.name :=
    honce.2.2 _ (List.mem_map_of_mem he) _ (List.mem_map_of_mem List.mem_cons_self)
  simpa using hne.symm

/-- An entry behind others counts if they do not give its key. -/
theorem put_among {done : List (String × String)} {field : SettingsField}
    (h : (among done).get? field = none) (value : String) :
    (among done).put field value = among (done ++ [(field.name, value)]) := by
  rw [get?_among] at h
  cases field with
  | inputs =>
      have h : done.lookup "inputs_dir" = none := h
      simp [among, put, List.lookup_append, h, SettingsField.name]
  | outputs =>
      have h : done.lookup "outputs_dir" = none := h
      simp [among, put, List.lookup_append, h, SettingsField.name]

/-! ## Proper entries -/

/-- The keys of entries are names of settings, and none occurs twice. -/
structure Proper (entries : List (String × String)) : Prop where
  known : ∀ e ∈ entries, ∃ field : SettingsField, e.1 = field.name
  once : (entries.map Prod.fst).Nodup

theorem proper_concat {done : List (String × String)} {e : String × String} :
    Proper (done ++ [e]) ↔
      Proper done ∧ ∃ field : SettingsField, e.1 = field.name ∧ (among done).get? field = none := by
  constructor
  · rintro ⟨hknown, honce⟩
    obtain ⟨hdone, he⟩ := List.forall_mem_append.mp hknown
    obtain ⟨field, hfield⟩ := he e List.mem_cons_self
    rw [List.map_append, List.map_singleton, ← List.concat_eq_append, List.nodup_concat] at honce
    exact ⟨⟨hdone, honce.2⟩, field, hfield, get?_among_eq_none.mpr (hfield ▸ honce.1)⟩
  · rintro ⟨⟨hknown, honce⟩, field, hfield, hfresh⟩
    refine ⟨List.forall_mem_append.mpr ⟨hknown, by simpa using ⟨field, hfield⟩⟩, ?_⟩
    rw [List.map_append, List.map_singleton, ← List.concat_eq_append, List.nodup_concat, hfield]
    exact ⟨get?_among_eq_none.mp hfresh, honce⟩

/-- Entries are proper, or there is a first one that is not proper behind those before it. -/
theorem proper_or_first (entries : List (String × String)) :
    Proper entries ∨ ∃ good bad others, entries = good ++ bad :: others ∧ Proper good ∧
      ¬ Proper (good ++ [bad]) := by
  induction entries using List.reverseRecOn with
  | nil => exact .inl ⟨by simp, List.nodup_nil⟩
  | append_singleton entries e ih =>
      obtain hproper | ⟨good, bad, others, rfl, hgood, hbad⟩ := ih
      · by_cases h : Proper (entries ++ [e])
        · exact .inl h
        · exact .inr ⟨entries, e, [], rfl, hproper, h⟩
      · exact .inr ⟨good, bad, others ++ [e], by simp, hgood, hbad⟩

/-- The entries before others are proper if all of them are. -/
theorem Proper.before {front back : List (String × String)} (h : Proper (front ++ back)) :
    Proper front := by
  refine ⟨fun e he => h.known e (List.mem_append_left back he), ?_⟩
  have honce := h.once
  rw [List.map_append] at honce
  exact honce.of_append_left

theorem Proper.perm {entries others : List (String × String)} (h : Proper entries)
    (hperm : others.Perm entries) : Proper others :=
  ⟨fun e he => h.known e (hperm.mem_iff.mp he), (hperm.map Prod.fst).nodup_iff.mpr h.once⟩

/-- The names of settings are not too long for keys, in any style. -/
theorem length_quoted_name (style : Style) (field : SettingsField) :
    (quoted style field.name).length ≤ Yaml.Scanner.keyLimit := by
  -- a name holds nothing but letters and an underscore, so the style does not matter
  have hplain : quoted style field.name = '"' :: (field.name.toList ++ ['"']) := by
    cases field <;> rfl
  rw [hplain]
  cases field <;> decide

theorem Proper.length_quoted {entries : List (String × String)} (h : Proper entries)
    (style : Style) :
    ∀ e ∈ entries, (quoted style e.1).length ≤ Yaml.Scanner.keyLimit := by
  intro e he
  obtain ⟨field, hfield⟩ := h.known e he
  rw [hfield]
  exact length_quoted_name style field

/-! ## Reading items -/

section Items

variable {d : Document} {key value : Item}

theorem scalarText_of_text {item : Item} {text : String} (h : item.kind = textItem text) :
    scalarText d item = .ok text := by
  obtain ⟨kind, mark⟩ := item
  obtain rfl : kind = textItem text := h
  simp [scalarText, target, textItem]

/-- The name of an entry is a key for it. -/
theorem readKey_name {field : SettingsField} (h : key.kind = textItem field.name) :
    readKey d key = .ok field := by
  rw [readKey, scalarText_of_text h]
  cases field <;> rfl

/-- Any other text is an unknown key. -/
theorem readKey_unknown {text : String} (h : key.kind = textItem text)
    (hunknown : ∀ field : SettingsField, text ≠ field.name) :
    readKey d key = .error (.unknownKey text (target d key).mark) := by
  rw [readKey, scalarText_of_text h]
  simp only [if_neg (hunknown .inputs), if_neg (hunknown .outputs)]

/-- A key that is a text does not end a mapping. -/
theorem readMapping_key {text : String} (h : key.kind = textItem text) (start : Mark)
    (e : SettingsEntries) (rest : List Item) :
    readMapping d start e (key :: rest) = (readKey d key).bind fun field =>
      if (e.get? field).isSome then .error (.repeatedKey field start)
      else match rest with
        | [] => afterItems d e
        | value :: rest => (readValue d key value).bind fun text =>
            readMapping d start (e.put field text) rest := by
  have hkey : key.kind ≠ .mappingEnd := by simp [h, textItem]
  rw [readMapping, if_neg hkey]
  cases rest <;> rfl

/-- A key that is given for the first time, and its value. -/
theorem readMapping_entry {field : SettingsField} {text : String}
    (hkey : key.kind = textItem field.name) (hvalue : value.kind = textItem text)
    {e : SettingsEntries} (hfresh : e.get? field = none) (start : Mark) (rest : List Item) :
    readMapping d start e (key :: value :: rest) =
      readMapping d start (e.put field text) rest := by
  have htext : readValue d key value = .ok text := by
    rw [readValue, scalarText_of_text hvalue]
  simp [readMapping_key hkey, readKey_name hkey, Except.bind, hfresh, htext]

/-- Proper entries are read one after the other. -/
theorem readMapping_among {done good : List (String × String)} {items : List Item}
    (hproper : Proper (done ++ good)) (hitems : items.map Item.kind = (texts good).map textItem)
    (start : Mark) (rest : List Item) :
    readMapping d start (among done) (items ++ rest) =
      readMapping d start (among (done ++ good)) rest := by
  induction good generalizing done items with
  | nil =>
      obtain rfl : items = [] := by simpa [texts] using hitems
      simp
  | cons e good ih =>
      simp only [texts, List.flatMap_cons, List.cons_append, List.nil_append, List.map_cons,
        List.map_eq_cons_iff] at hitems
      obtain ⟨key, _, rfl, hkey, value, items, rfl, hvalue, hitems⟩ := hitems
      rw [List.append_cons] at hproper ⊢
      obtain ⟨-, field, hfield, hfresh⟩ := proper_concat.mp hproper.before
      rw [hfield] at hkey
      rw [← ih hproper hitems, List.cons_append, List.cons_append,
        readMapping_entry hkey hvalue hfresh, put_among hfresh, ← hfield]

/-- Reading fails at the first entry that is not proper. -/
theorem readMapping_improper {done : List (String × String)} {bad : String × String}
    (hdone : Proper done) (hbad : ¬ Proper (done ++ [bad])) (hkey : key.kind = textItem bad.1)
    (start : Mark) (rest : List Item) :
    ∃ fault, readMapping d start (among done) (key :: rest) = .error fault := by
  by_cases hknown : ∃ field : SettingsField, bad.1 = field.name
  · obtain ⟨field, hfield⟩ := hknown
    have hgiven : ((among done).get? field).isSome = true := by
      rw [← Option.ne_none_iff_isSome]
      exact fun hfresh => hbad (proper_concat.mpr ⟨hdone, field, hfield, hfresh⟩)
    rw [hfield] at hkey
    exact ⟨.repeatedKey field start, by
      simp [readMapping_key hkey, readKey_name hkey, Except.bind, hgiven]⟩
  · rw [not_exists] at hknown
    exact ⟨_, by rw [readMapping_key hkey, readKey_unknown hkey hknown]; rfl⟩

end Items

/-! ## Reading texts -/

/-- A written mapping that has an entry is not blank. -/
theorem isBlank_mappingText (style : Style) (e : String × String)
    (entries : List (String × String)) :
    Text.isBlank (mappingText style (e :: entries)) = false := by
  have hquote : Text.whiteSpace.contains '"' = false := by decide
  simp [Text.isBlank, mappingText, Yaml.entryLines_cons, Yaml.Quoted.quoted, hquote]

theorem read_of_not_blank {text : String} (h : Text.isBlank text = false) :
    read text = (ofDocument (Document.read text).1).bind fun entries =>
      if (Document.read text).2 then .ok entries else .error .moreDocuments := by
  rw [read, if_neg (by simp [h])]
  rfl

/-- Reading a document that begins with proper entries goes on behind them. -/
theorem ofDocument_among {d : Document} {good : List (String × String)} (hgood : Proper good)
    {start : Mark} {items rest : List Item}
    (hitems : items.map Item.kind = (texts good).map textItem)
    (h : d.items = ⟨.mappingStart, start⟩ :: (items ++ rest)) :
    ofDocument d = readMapping d start (among good) rest := by
  have hnone : Proper ([] ++ good) := hgood
  rw [ofDocument, h]
  exact readMapping_among hnone hitems start rest

/-- A document that is only a text is no mapping. -/
theorem ofDocument_text {d : Document} {root : Item} {text : String} {rest : List Item}
    (hroot : root.kind = textItem text) (h : d.items = root :: rest) :
    ∃ fault, ofDocument d = .error fault := by
  rw [ofDocument, h]
  simp [hroot, textItem, Yaml.ScalarValue.ofScalar]

/-- Proper entries read as what they give. -/
theorem read_proper (style : Style) {entries : List (String × String)} (h : Proper entries) :
    read (mappingText style entries) = .ok (among entries) := by
  cases entries with
  | nil => rfl
  | cons e entries =>
      obtain ⟨start, items, stop, hitems, hread⟩ :=
        Document.read_mapping style (h.length_quoted style) (by simp)
      rw [read_of_not_blank (isBlank_mappingText style e entries), hread,
        ofDocument_among h hitems rfl]
      rfl

/-- The document of a text with a key that is not proper behind others cannot be read. -/
theorem ofDocument_improper (style : Style) {good : List (String × String)}
    {bad : String × String} (hgood : Proper good) (hbad : ¬ Proper (good ++ [bad]))
    (others : List (String × String)) :
    ∃ fault, ofDocument (Document.read (mappingText style (good ++ bad :: others))).1 =
      .error fault := by
  rcases Nat.lt_or_ge Yaml.Scanner.keyLimit (quoted style bad.1).length with
    hlength | hlength
  · obtain ⟨start, items, fault, hitems, hread⟩ | ⟨root, hroot, hread⟩ :=
      Document.read_longKey style (hgood.length_quoted style) bad others hlength
    · rw [← List.append_nil items] at hread
      refine ⟨.yaml fault, ?_⟩
      rw [hread, ofDocument_among hgood hitems rfl]
      rfl
    · exact ofDocument_text hroot hread
  · obtain ⟨start, items, key, more, hitems, hkey, hread⟩ :=
      Document.read_shortKey style (hgood.length_quoted style) bad others hlength
    rw [ofDocument_among hgood hitems hread]
    exact readMapping_improper hgood hbad hkey start more

/-- Entries that are not proper cannot be read. -/
theorem read_improper (style : Style) {entries : List (String × String)} (h : ¬ Proper entries) :
    ∃ fault, read (mappingText style entries) = .error fault := by
  obtain ⟨good, bad, others, rfl, hgood, hbad⟩ := (proper_or_first entries).resolve_left h
  obtain ⟨fault, hfault⟩ := ofDocument_improper style hgood hbad others
  refine ⟨fault, ?_⟩
  have hblank : Text.isBlank (mappingText style (good ++ bad :: others)) = false := by
    cases good <;> exact isBlank_mappingText ..
  rw [read_of_not_blank hblank, hfault]
  rfl

end SettingsEntries

/-! ## Written settings -/

namespace Settings

open SettingsEntries (Proper among)

section Among

variable {entries : List (String × String)} {field : SettingsField}

/-- A directory that is given. -/
theorem get_among_of_mem (h : Proper entries) {value : String}
    (hvalue : (field.name, value) ∈ entries) :
    (among entries).settings.get field = Path.ofText value := by
  rw [get_settings, SettingsEntries.get?_among_of_mem h.once hvalue]
  rfl

/-- A directory that is not given. -/
theorem get_among_of_not_mem (h : field.name ∉ entries.map Prod.fst) :
    (among entries).settings.get field = default.get field := by
  rw [get_settings, SettingsEntries.get?_among_eq_none.mpr h]
  rfl

/-- The order of the entries makes no difference. -/
theorem settings_among_perm {others : List (String × String)} (h : Proper entries)
    (hperm : others.Perm entries) : (among others).settings = (among entries).settings := by
  refine eq_iff_get.mpr fun field => ?_
  by_cases hgiven : field.name ∈ entries.map Prod.fst
  · obtain ⟨⟨key, value⟩, hvalue, hkey⟩ := List.mem_map.mp hgiven
    obtain rfl : key = field.name := hkey
    rw [get_among_of_mem h hvalue, get_among_of_mem (h.perm hperm) (hperm.mem_iff.mpr hvalue)]
  · have hothers : field.name ∉ others.map Prod.fst := by
      rwa [(hperm.map Prod.fst).mem_iff]
    rw [get_among_of_not_mem hgiven, get_among_of_not_mem hothers]

end Among

theorem read_proper (style : Style) {entries : List (String × String)} (h : Proper entries) :
    read (mappingText style entries) = .ok (among entries).settings := by
  rw [read, SettingsEntries.read_proper style h]
  rfl

theorem read_improper (style : Style) {entries : List (String × String)} (h : ¬ Proper entries) :
    ∃ fault, read (mappingText style entries) = .error fault := by
  obtain ⟨fault, hfault⟩ := SettingsEntries.read_improper style h
  refine ⟨fault, ?_⟩
  rw [read, hfault]
  rfl

end Settings

end TreeListing
