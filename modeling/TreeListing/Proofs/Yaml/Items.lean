import TreeListing.Proofs.Yaml.Tokens
import TreeListing.Yaml.Document

/-!
# The document of a written mapping

The keys and the values of a written mapping come one after the other, as events and then as items
of the document.  They are texts without anchor or tag, so `ofEvents` takes each event to an item
and nothing else changes (`ofEvents_prepend`).

Of a whole text `read_mapping`, `read_shortKey` and `read_longKey` say what `scan_mapping` and the
others say of its tokens.
-/

namespace TreeListing.Yaml

/-- The keys and the values of entries, in order. -/
def texts (entries : List (String × String)) : List String :=
  entries.flatMap fun e => [e.1, e.2]

/-- The event of a key or a value. -/
def textEvent (text : String) : EventKind :=
  .scalar {} text.toList false

/-- The item of a key or a value. -/
def textItem (text : String) : ItemKind :=
  .scalar none text.toList false

/-- Events before others. -/
def Events.prepend (events : List Event) (rest : Events) : Events :=
  events.foldr .next rest

/-! ## Events -/

namespace Parser

/-- Behind an entry of a block mapping that is all of the text. -/
def inMapping (tokens : Tokens) (start : Mark) : Parser :=
  ⟨tokens, [.blockMappingKey start, .documentEnd, .document false], Tag.commonHandles⟩

/-- The first token of a mapping begins the document. -/
theorem run_start {t : Token} (ht : t.kind = .blockMappingStart) (rest : Tokens) (n : Nat) :
    run (n + 2) ⟨.next t rest, [.document true], []⟩ =
      .next ⟨.documentStart, t.start⟩
        (.next ⟨.mappingStart {}, t.start⟩ (run n (inMapping rest t.start))) := by
  obtain ⟨kind, start, stop⟩ := t
  obtain rfl : kind = .blockMappingStart := ht
  rfl

/-- A key of the mapping. -/
theorem run_key {t k : Token} {text : List Char} (ht : t.kind = .key)
    (hk : k.kind = .scalar text false) (rest : Tokens) (start : Mark) (n : Nat) :
    run (n + 1) (inMapping (.next t (.next k rest)) start) =
      .next ⟨.scalar {} text false, k.start⟩
        (run n ((inMapping rest start).expect [.blockMappingValue])) := by
  obtain ⟨kind, _, _⟩ := t
  obtain rfl : kind = .key := ht
  obtain ⟨kind, _, _⟩ := k
  obtain rfl : kind = .scalar text false := hk
  rfl

/-- The value behind a key. -/
theorem run_value {t v : Token} {text : List Char} (ht : t.kind = .value)
    (hv : v.kind = .scalar text false) (rest : Tokens) (start : Mark) (n : Nat) :
    run (n + 1) ((inMapping (.next t (.next v rest)) start).expect [.blockMappingValue]) =
      .next ⟨.scalar {} text false, v.start⟩ (run n (inMapping rest start)) := by
  obtain ⟨kind, _, _⟩ := t
  obtain rfl : kind = .value := ht
  obtain ⟨kind, _, _⟩ := v
  obtain rfl : kind = .scalar text false := hv
  rfl

/-- The end of the mapping ends the document and the text. -/
theorem run_end {t : Token} (ht : t.kind = .blockEnd) (m start : Mark) (n : Nat) :
    run (n + 3) (inMapping (.next t (.ended m)) start) =
      .next ⟨.mappingEnd, t.start⟩ (.next ⟨.documentEnd, m⟩ .ended) := by
  obtain ⟨kind, _, _⟩ := t
  obtain rfl : kind = .blockEnd := ht
  rfl

/-- Each entry of the mapping gives the event of its key and that of its value. -/
theorem run_entries {entries : List (String × String)} {tokens : List Token}
    (htokens : tokens.map Token.kind = entries.flatMap Scanner.entryKinds) (rest : Tokens)
    (start : Mark) :
    ∃ events, events.map Event.kind = (texts entries).map textEvent ∧
      ∀ n, run (n + 2 * entries.length) (inMapping (.prepend tokens rest) start) =
        .prepend events (run n (inMapping rest start)) := by
  induction entries generalizing tokens with
  | nil =>
      obtain rfl : tokens = [] := by simpa using htokens
      exact ⟨[], rfl, fun n => rfl⟩
  | cons e entries ih =>
      simp only [List.flatMap_cons, Scanner.entryKinds, List.cons_append, List.nil_append,
        List.map_eq_cons_iff] at htokens
      obtain ⟨key, _, rfl, hkey, k, _, rfl, hk, htokens⟩ := htokens
      obtain ⟨value, _, rfl, hvalue, v, tokens, rfl, hv, htokens⟩ := htokens
      obtain ⟨events, hevents, hrun⟩ := ih htokens
      refine ⟨⟨textEvent e.1, k.start⟩ :: ⟨textEvent e.2, v.start⟩ :: events, ?_, fun n => ?_⟩
      · simpa [texts] using hevents
      · have hkeyRun := run_key hkey hk (.next value (.next v (.prepend tokens rest))) start
          (n + 2 * entries.length + 1)
        have hvalueRun := run_value hvalue hv (.prepend tokens rest) start (n + 2 * entries.length)
        rw [hvalueRun, hrun] at hkeyRun
        exact hkeyRun

end Parser

theorem Tokens.length_prepend (tokens : List Token) (rest : Tokens) :
    (prepend tokens rest).length = tokens.length + rest.length := by
  induction tokens with
  | nil => simp [prepend]
  | cons t tokens ih =>
      change (prepend tokens rest).length + 1 = _
      rw [ih, List.length_cons]
      omega

/-! ## Items -/

namespace Document

/-- With items at the front. -/
def prepend (items : List Item) (d : Document) : Document :=
  { d with items := items ++ d.items }

/-- The event of a text is an item, and nothing else comes of it. -/
theorem ofEvents_text (names : List (List Char × Nat)) (anchors : List (Nat × Item))
    (text : String) (mark : Mark) (rest : Events) :
    ofEvents names anchors (.next ⟨textEvent text, mark⟩ rest) =
      ((ofEvents names anchors rest).1.push ⟨textItem text, mark⟩,
        (ofEvents names anchors rest).2) := rfl

/-- Each text of the events is an item. -/
theorem ofEvents_prepend {events : List Event} {texts : List String}
    (hevents : events.map Event.kind = texts.map textEvent) (names : List (List Char × Nat))
    (anchors : List (Nat × Item)) (rest : Events) :
    ∃ items, items.map Item.kind = texts.map textItem ∧
      ofEvents names anchors (.prepend events rest) =
        ((ofEvents names anchors rest).1.prepend items, (ofEvents names anchors rest).2) := by
  induction texts generalizing events with
  | nil =>
      obtain rfl : events = [] := by simpa using hevents
      exact ⟨[], rfl, rfl⟩
  | cons text texts ih =>
      simp only [List.map_cons, List.map_eq_cons_iff] at hevents
      obtain ⟨⟨kind, mark⟩, events, rfl, rfl, hevents⟩ := hevents
      obtain ⟨items, hitems, hrest⟩ := ih hevents
      refine ⟨⟨textItem text, mark⟩ :: items, by simp [hitems], ?_⟩
      refine (ofEvents_text names anchors text mark (.prepend events rest)).trans ?_
      rw [hrest]
      rfl

section Mapping

variable {good : List (String × String)} {tokens : List Token} {kinds : List TokenKind}

/-- A document that begins as a mapping has the items of the mapping. -/
theorem ofEvents_mapping (htokens : tokens.map Token.kind =
      .blockMappingStart :: (good.flatMap Scanner.entryKinds ++ kinds)) (rest : Tokens) :
    ∃ start items back n, items.map Item.kind = (texts good).map textItem ∧
      back.map Token.kind = kinds ∧
      ∀ d after, ofEvents [] []
          (Parser.run (n + 3) (Parser.inMapping (.prepend back rest) start)) = (d, after) →
        ofEvents [] [] (events (.prepend tokens rest)) =
          (d.prepend (⟨.mappingStart, start⟩ :: items), after) := by
  rw [List.map_eq_cons_iff] at htokens
  obtain ⟨t, tokens, rfl, ht, htokens⟩ := htokens
  rw [List.map_eq_append_iff] at htokens
  obtain ⟨front, back, rfl, hfront, hback⟩ := htokens
  obtain ⟨events, hevents, hrun⟩ := Parser.run_entries hfront (.prepend back rest) t.start
  obtain ⟨n, hn⟩ : ∃ n, 4 * (Tokens.prepend (t :: (front ++ back)) rest).length + 4 =
      n + 3 + 2 * good.length + 2 := by
    have hlength : front.length = 4 * good.length := by
      have h := congrArg List.length hfront
      simpa [Scanner.entryKinds, List.length_flatMap, List.map_const', Nat.mul_comm] using h
    rw [Tokens.length_prepend, List.length_cons, List.length_append]
    exact ⟨4 * (front.length + back.length + 1 + rest.length) - 2 * good.length - 1, by omega⟩
  have hmapping : Yaml.events (.prepend (t :: (front ++ back)) rest) =
      .next ⟨.documentStart, t.start⟩ (.next ⟨.mappingStart {}, t.start⟩ (.prepend events
        (Parser.run (n + 3) (Parser.inMapping (.prepend back rest) t.start)))) := by
    rw [Yaml.events, hn, ← hrun, ← Tokens.prepend_append]
    exact Parser.run_start ht _ _
  obtain ⟨items, hitems, hrest⟩ := ofEvents_prepend hevents [] []
    (Parser.run (n + 3) (Parser.inMapping (.prepend back rest) t.start))
  refine ⟨t.start, items, back, n, hitems, hback, fun d after hmore => ?_⟩
  have hstart : ∀ rest, ofEvents [] []
      (.next ⟨.documentStart, t.start⟩ (.next ⟨.mappingStart {}, t.start⟩ rest)) =
        ((ofEvents [] [] rest).1.push ⟨.mappingStart, t.start⟩, (ofEvents [] [] rest).2) :=
    fun _ => rfl
  rw [hmapping, hstart, hrest, hmore]
  rfl

end Mapping

section Read

variable (style : Quoted.Style) {good : List (String × String)}
  (hgood : ∀ e ∈ good, (Quoted.quoted style e.1).length ≤ Scanner.keyLimit)

include hgood

/-- The document of a written mapping with keys that are not too long. -/
theorem read_mapping (hne : good ≠ []) :
    ∃ start items stop, items.map Item.kind = (texts good).map textItem ∧
      read (mappingText style good) =
        ({ items := ⟨.mappingStart, start⟩ :: (items ++ [⟨.mappingEnd, stop⟩]) }, true) := by
  obtain ⟨tokens, m, hkinds, hscan⟩ := scan_mapping style hgood hne
  obtain ⟨start, items, back, n, hitems, hback, hread⟩ := ofEvents_mapping hkinds (.ended m)
  obtain ⟨t, rfl, ht⟩ : ∃ t, back = [t] ∧ t.kind = .blockEnd := by
    simpa [List.map_eq_singleton_iff] using hback
  have hend : Parser.run (n + 3) (Parser.inMapping (.prepend [t] (.ended m)) start) = _ :=
    Parser.run_end ht m start n
  have hmore := hread { items := [⟨.mappingEnd, t.start⟩] } .ended (by rw [hend]; rfl)
  refine ⟨start, items, t.start, hitems, ?_⟩
  rw [read, hscan, hmore]
  rfl

variable (bad : String × String) (others : List (String × String))

/-- The document of a written mapping up to a key that is not too long. -/
theorem read_shortKey (hbad : (Quoted.quoted style bad.1).length ≤ Scanner.keyLimit) :
    ∃ start items key more, items.map Item.kind = (texts good).map textItem ∧
      key.kind = textItem bad.1 ∧
      (read (mappingText style (good ++ bad :: others))).1.items =
        ⟨.mappingStart, start⟩ :: (items ++ key :: more) := by
  obtain ⟨tokens, rest, hkinds, hscan⟩ := scan_shortKey style hgood bad others hbad
  obtain ⟨start, items, back, n, hitems, hback, hread⟩ := ofEvents_mapping hkinds rest
  simp only [List.map_eq_cons_iff] at hback
  obtain ⟨key, _, rfl, hkey, k, back, rfl, hk, -⟩ := hback
  have hrun : Parser.run (n + 3)
      (Parser.inMapping (.prepend (key :: k :: back) rest) start) = _ :=
    Parser.run_key hkey hk (.prepend back rest) start (n + 2)
  have hmore := hread _ _ ((congrArg _ hrun).trans (ofEvents_text [] [] bad.1 k.start _))
  rw [read, hscan, hmore]
  exact ⟨start, items, ⟨textItem bad.1, k.start⟩, _, hitems, rfl, rfl⟩

/-- The document of a written mapping up to a key that is too long. -/
theorem read_longKey (hbad : Scanner.keyLimit < (Quoted.quoted style bad.1).length) :
    (∃ start items fault, items.map Item.kind = (texts good).map textItem ∧
      (read (mappingText style (good ++ bad :: others))).1 =
        { items := ⟨.mappingStart, start⟩ :: items, fault := some fault }) ∨
    ∃ root, root.kind = textItem bad.1 ∧
      (read (mappingText style (good ++ bad :: others))).1.items = [root] := by
  obtain ⟨tokens, fault, hkinds, hscan⟩ | ⟨-, token, fault, htoken, hscan⟩ :=
    scan_longKey style hgood bad others hbad
  · rw [← List.append_nil (good.flatMap _)] at hkinds
    obtain ⟨start, items, back, n, hitems, hback, hread⟩ := ofEvents_mapping hkinds (.failed fault)
    obtain rfl : back = [] := by simpa using hback
    have hmore := hread { fault := some fault } (.failed fault) rfl
    rw [read, hscan, hmore]
    exact .inl ⟨start, items, fault, hitems, by simp [prepend]⟩
  · obtain ⟨kind, start, stop⟩ := token
    obtain rfl : kind = _ := htoken
    rw [read, hscan]
    exact .inr ⟨⟨textItem bad.1, start⟩, rfl, rfl⟩

end Read

end Document

end TreeListing.Yaml
