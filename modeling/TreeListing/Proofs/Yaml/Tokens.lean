import TreeListing.Proofs.Yaml.Quoted
import TreeListing.Yaml.Token.Scan

/-!
# Tokens of a written mapping

A written mapping has an entry on each line, a key and a value in double quotes.  Scanning it takes
three steps for a line, and the state of the scanner before each of them is one of `atLine`,
`behindKey` and `inLine`: only the text that is left, the place, and whether the mapping has begun
tell two states of one kind apart.

A key is not a key before its colon.  Until then it is kept back, and a quoted key of more than
`Scanner.keyLimit` characters is given up: on the first line the text is then no mapping, and on a
later line a key was needed.  So what is said of a whole text, in `scan_mapping`, `scan_shortKey`
and `scan_longKey`, depends on how long the keys are.
-/

namespace TreeListing.Yaml

open Quoted

/-! ## Written mappings -/

/-- An entry on a line of its own. -/
def entryLine (style : Style) (e : String × String) : List Char :=
  quoted style e.1 ++ ':' :: ' ' :: (quoted style e.2 ++ ['\n'])

/-- A block mapping with one entry on each line. -/
def entryLines (style : Style) (entries : List (String × String)) : List Char :=
  entries.flatMap (entryLine style)

/-- The text of such a mapping. -/
def mappingText (style : Style) (entries : List (String × String)) : String :=
  String.ofList (entryLines style entries)

theorem entryLines_cons (style : Style) (e : String × String) (entries : List (String × String)) :
    entryLines style (e :: entries) =
      quoted style e.1 ++ ':' :: ' ' :: (quoted style e.2 ++ '\n' :: entryLines style entries) := by
  simp [entryLines, entryLine]

theorem Tokens.prepend_append (front back : List Token) (rest : Tokens) :
    prepend (front ++ back) rest = prepend front (prepend back rest) :=
  List.foldr_append

namespace Scanner

/-! ## Steps that close nothing -/

/-- Outside of flow collections, with no block collection further in than the first column, and
with no stale key. -/
structure Calm (s : Scanner) : Prop where
  outer : s.outer = []
  key : ∀ key ∈ s.key, s.isStale key = false
  indents : ∀ indent ∈ s.indents, indent = 0

theorem dropStale_eq {s : Scanner} (h : s.outer = []) :
    s.dropStale = (s.freshKey s.key).map fun key => { s with key } := by
  obtain ⟨input, queue, given, indents, keyAllowed, key, outer, ended⟩ := s
  obtain rfl : outer = [] := h
  rfl

theorem Calm.dropStale {s : Scanner} (hs : s.Calm) : s.dropStale = .ok s := by
  have hfresh : s.freshKey s.key = .ok s.key := by
    cases h : s.key with
    | none => rfl
    | some key => simp [freshKey, hs.key key h]
  rw [dropStale_eq hs.outer, hfresh]
  rfl

theorem Calm.closeBlocks {s : Scanner} (hs : s.Calm) :
    s.closeBlocks (s.mark.column < ·) = s := by
  have hflow : s.inFlow = false := by simp [inFlow, hs.outer]
  have hstay : s.indents.takeWhile (s.mark.column < ·) = [] ∧
      s.indents.dropWhile (s.mark.column < ·) = s.indents := by
    cases h : s.indents with
    | nil => exact ⟨rfl, rfl⟩
    | cons indent indents =>
        have hzero : indent = 0 := hs.indents indent (by rw [h]; exact List.mem_cons_self)
        simp [hzero]
  simp [Scanner.closeBlocks, hflow, hstay]

/-- A calm step adds the next token and does nothing else. -/
theorem step_of_calm {s t : Scanner} (hnext : s.toNextToken = t) (ht : t.Calm) :
    s.step none = t.addToken.bind dropStale := by
  have hstep : s.step none = s.toNextToken.dropStale.bind fun s =>
      (s.closeBlocks (s.mark.column < ·)).addToken.bind Scanner.dropStale := rfl
  rw [hstep, hnext, ht.dropStale]
  change (t.closeBlocks (t.mark.column < ·)).addToken.bind Scanner.dropStale = _
  rw [ht.closeBlocks]

theorem run_succ {s next rest : Scanner} {out : List Token} (hstep : s.step none = .ok next)
    (hrelease : next.release = (out, rest)) (hended : rest.ended = false) (n : Nat) :
    run none (n + 1) s = .prepend out (run none n rest) := by
  simp [run, hstep, hrelease, hended]

/-- With no possible key, all tokens are given out. -/
theorem release_of_key {s : Scanner} (houter : s.outer = []) (hkey : s.key = none) :
    s.release = (s.queue, { s with queue := [], given := s.given + s.queue.length }) := by
  simp [release, settled, houter, hkey]

/-! ## The states along a line -/

/-- At the start of a line, where a key may begin. -/
def atLine (rest : List Char) (m : Mark) (given : Nat) (indents : List Nat) : Scanner :=
  { input := ⟨rest, m⟩, given, indents }

/-- Behind a quoted text that may be a key, which began at `start`. -/
def behindKey (rest : List Char) (start m : Mark) (given : Nat) (indents : List Nat)
    (key : String) : Scanner :=
  { input := ⟨rest, m⟩, queue := [⟨.scalar key.toList false, start, m⟩], given, indents,
    keyAllowed := false, key := some ⟨given, start, indents.head? == some start.column⟩ }

/-- On a line of the mapping, where no key may begin. -/
def inLine (rest : List Char) (m : Mark) (given : Nat) : Scanner :=
  { input := ⟨rest, m⟩, given, indents := [0], keyAllowed := false }

theorem marker_cons {c d : Char} (h : d ≠ c) (rest : List Char) :
    marker c (d :: rest) = false := by
  cases rest with
  | nil => rfl
  | cons e rest => cases rest <;> simp [marker, h]

theorem addToken_quote {s : Scanner} {rest : List Char} (h : s.input.chars = '"' :: rest) :
    s.addToken = s.addQuoted '"' := by
  simp [addToken, h, marker_cons]

theorem addToken_colon {s : Scanner} {rest : List Char} (h : s.input.chars = ':' :: ' ' :: rest) :
    s.addToken = s.addValue := by
  simp [addToken, h, marker_cons, blankOrEnd, isBlank]

/-! ## Quoted texts -/

/-- A quoted text is read up to its closing quote. -/
theorem addToken_quoted (style : Style) {s t : Scanner} {text : String} {rest : List Char}
    {m : Mark} (hs : s.input = ⟨quoted style text ++ rest, m⟩) (hnote : s.noteKey = .ok t)
    (ht : t.input = s.input) :
    s.addToken = .ok ((t.allowKey false).pushTo (.scalar text.toList false) m
      ⟨rest, m.forward (quoted style text).length⟩) := by
  have hquote : s.addToken = s.addQuoted '"' := by
    apply addToken_quote
    rw [hs]
    rfl
  have hadd : s.addQuoted '"' = s.noteKey.bind fun s => (Quoted.scan '"' s.input).bind fun r =>
      .ok ((s.allowKey false).pushTo (.scalar r.text false) s.mark r.after) := rfl
  have hmark : t.mark = m := by rw [mark, ht, hs]
  rw [hquote, hadd, hnote]
  simp only [Except.bind]
  rw [ht, hs, scan_quoted]
  simp only [hmark]

theorem calm_atLine {rest : List Char} {m : Mark} {given : Nat} {indents : List Nat}
    (hindents : ∀ indent ∈ indents, indent = 0) : (atLine rest m given indents).Calm :=
  ⟨rfl, by simp [atLine], hindents⟩

/-- A quoted text at the start of a line may be a key. -/
theorem addToken_atLine (style : Style) (key : String) (rest : List Char) (m : Mark) (given : Nat)
    (indents : List Nat) :
    (atLine (quoted style key ++ rest) m given indents).addToken =
      .ok (behindKey rest m (m.forward (quoted style key).length) given indents key) := by
  have hnote : (atLine (quoted style key ++ rest) m given indents).noteKey =
      .ok { atLine (quoted style key ++ rest) m given indents with
        key := some ⟨given, m, indents.head? == some m.column⟩ } := rfl
  exact addToken_quoted style rfl hnote rfl

/-- On the line of a key no other key may begin. -/
theorem addToken_inLine (style : Style) (value : String) (rest : List Char) (m : Mark)
    (given : Nat) :
    (inLine (quoted style value ++ rest) m given).addToken =
      .ok ((inLine rest (m.forward (quoted style value).length) given).push
        (.scalar value.toList false) m (m.forward (quoted style value).length)) :=
  addToken_quoted style rfl rfl rfl

/-! ## Keys -/

theorem isStale_behindKey {rest : List Char} {m : Mark} {length given : Nat} {indents : List Nat}
    {key : String} {k : PossibleKey}
    (hk : k ∈ (behindKey rest m (m.forward length) given indents key).key) :
    (behindKey rest m (m.forward length) given indents key).isStale k =
      decide (keyLimit < length) := by
  obtain rfl : _ = k := Option.some.inj hk
  simp [isStale, behindKey, mark]

/-- A key that is not too long is kept back. -/
theorem step_key (style : Style) {s : Scanner} {key : String} {rest : List Char} {m : Mark}
    {given : Nat} {indents : List Nat} (hindents : ∀ indent ∈ indents, indent = 0)
    (hnext : s.toNextToken = atLine (quoted style key ++ rest) m given indents)
    (hlength : (quoted style key).length ≤ keyLimit) :
    (behindKey rest m (m.forward (quoted style key).length) given indents key).Calm ∧
    s.step none =
      .ok (behindKey rest m (m.forward (quoted style key).length) given indents key) := by
  have hcalm : (behindKey rest m (m.forward (quoted style key).length) given indents key).Calm := by
    refine ⟨rfl, fun k hk => ?_, hindents⟩
    rw [isStale_behindKey hk]
    simpa using hlength
  refine ⟨hcalm, ?_⟩
  rw [step_of_calm hnext (calm_atLine hindents), addToken_atLine]
  exact hcalm.dropStale

theorem release_behindKey (rest : List Char) (start m : Mark) (given : Nat) (indents : List Nat)
    (key : String) :
    (behindKey rest start m given indents key).release =
      ([], behindKey rest start m given indents key) := by
  simp [release, settled, behindKey]

/-- What comes before the first key, unless the mapping has begun already. -/
def opening (indents : List Nat) : List TokenKind :=
  if indents = [] then [.blockMappingStart] else []

@[simp] theorem opening_nil : opening [] = [.blockMappingStart] := rfl

@[simp] theorem opening_cons (indent : Nat) (indents : List Nat) :
    opening (indent :: indents) = [] := rfl

/-- The colon behind a key makes the key one, and begins the mapping if it is the first. -/
theorem step_colon {rest : List Char} {start m : Mark} {given : Nat} {indents : List Nat}
    {key : String} (hindents : indents = [] ∨ indents = [0]) (hstart : start.column = 0)
    (hcalm : (behindKey (':' :: ' ' :: rest) start m given indents key).Calm) :
    (behindKey (':' :: ' ' :: rest) start m given indents key).step none =
      .ok { inLine (' ' :: rest) (m.forward 1) given with
        queue := ((opening indents).map fun kind => ⟨kind, start, start⟩) ++
          [⟨.key, start, start⟩, ⟨.scalar key.toList false, start, m⟩,
            ⟨.value, m, m.forward 1⟩] } := by
  have hnext : (behindKey (':' :: ' ' :: rest) start m given indents key).toNextToken =
      behindKey (':' :: ' ' :: rest) start m given indents key := by
    simp [behindKey, toNextToken, Input.starts, byteOrderMark, skipGap, isBreak]
  have hvalue : (behindKey (':' :: ' ' :: rest) start m given indents key).addValue =
      .ok { inLine (' ' :: rest) (m.forward 1) given with
        queue := ((opening indents).map fun kind => ⟨kind, start, start⟩) ++
          [⟨.key, start, start⟩, ⟨.scalar key.toList false, start, m⟩,
            ⟨.value, m, m.forward 1⟩] } := by
    rcases hindents with rfl | rfl <;>
      simp [addValue, behindKey, insert, openBlock, inFlow, isDeeper, hstart, allowKey, pushNext,
        pushTo, push, mark, Input.forward, opening, inLine]
  rw [step_of_calm hnext hcalm, addToken_colon rfl, hvalue]
  exact dropStale_eq rfl

/-- A key, and the value behind it, on a line. -/
theorem run_key (style : Style) {s : Scanner} {key : String} {rest : List Char} {m : Mark}
    {given : Nat} {indents : List Nat} (hindents : indents = [] ∨ indents = [0])
    (hm : m.column = 0)
    (hnext : s.toNextToken = atLine (quoted style key ++ ':' :: ' ' :: rest) m given indents)
    (hlength : (quoted style key).length ≤ keyLimit) :
    ∃ tokens m' given', tokens.map Token.kind =
        opening indents ++ [.key, .scalar key.toList false, .value] ∧
      ∀ n, run none (n + 2) s = .prepend tokens (run none n (inLine (' ' :: rest) m' given')) := by
  have hzero : ∀ indent ∈ indents, indent = 0 := by
    rcases hindents with rfl | rfl <;> simp
  obtain ⟨hcalm, hkey⟩ := step_key style hzero hnext hlength
  have hcolon := step_colon hindents hm hcalm
  refine ⟨_, _, _, ?_, fun n =>
    (run_succ hkey (release_behindKey _ _ _ _ _ _) rfl (n + 1)).trans
      (run_succ hcolon (release_of_key rfl rfl) rfl n)⟩
  simp [Function.comp_def]

/-- The value behind a key. -/
theorem run_value (style : Style) (value : String) (rest : List Char) (m : Mark) (given : Nat) :
    ∃ tokens m' given', tokens.map Token.kind = [.scalar value.toList false] ∧
      ∀ n, run none (n + 1) (inLine (' ' :: (quoted style value ++ rest)) m given) =
        .prepend tokens (run none n (inLine rest m' given')) := by
  have hnext : (inLine (' ' :: (quoted style value ++ rest)) m given).toNextToken =
      inLine (quoted style value ++ rest) (m.forward 1) given := by
    simp [inLine, toNextToken, Input.starts, byteOrderMark, skipGap, isBreak, quoted]
  have hcalm : (inLine (quoted style value ++ rest) (m.forward 1) given).Calm :=
    ⟨rfl, by simp [inLine], by simp [inLine]⟩
  have hstep := step_of_calm hnext hcalm
  rw [addToken_inLine] at hstep
  refine ⟨_, _, _, ?_, fun n =>
    run_succ (hstep.trans (dropStale_eq rfl)) (release_of_key rfl rfl) rfl n⟩
  rfl

/-! ## Keys that are too long -/

theorem dropStale_of_stale {s : Scanner} {key : PossibleKey} (houter : s.outer = [])
    (hkey : s.key = some key) (hstale : s.isStale key = true) :
    s.dropStale =
      if key.required then .error (s.keyFault key) else .ok { s with key := none } := by
  rw [dropStale_eq houter, hkey]
  cases hrequired : key.required <;> simp [freshKey, hstale, hrequired, Except.map]

/-- Behind a key that is too long the scanner fails if the line needs a key, and else forgets that
the text may be one. -/
theorem step_longKey (style : Style) {s : Scanner} {key : String} {rest : List Char} {m : Mark}
    {given : Nat} {indents : List Nat} (hindents : ∀ indent ∈ indents, indent = 0)
    (hnext : s.toNextToken = atLine (quoted style key ++ rest) m given indents)
    (hlength : keyLimit < (quoted style key).length) :
    ∃ fault, s.step none = if indents.head? == some m.column then .error fault
      else .ok { behindKey rest m (m.forward (quoted style key).length) given indents key with
        key := none } := by
  have hstep : s.step none =
      (behindKey rest m (m.forward (quoted style key).length) given indents key).dropStale := by
    rw [step_of_calm hnext (calm_atLine hindents), addToken_atLine]
    rfl
  have hstale : (behindKey rest m (m.forward (quoted style key).length) given indents key).isStale
      ⟨given, m, indents.head? == some m.column⟩ = true := by
    rw [isStale_behindKey rfl]
    simpa using hlength
  exact ⟨_, hstep.trans (dropStale_of_stale rfl rfl hstale)⟩

/-- A colon may not stand where no key is possible. -/
theorem step_misplacedColon (rest : List Char) (m : Mark) (given : Nat) :
    ∃ fault, step none
      { input := ⟨':' :: ' ' :: rest, m⟩, given, keyAllowed := false } = .error fault := by
  have hnext : toNextToken { input := ⟨':' :: ' ' :: rest, m⟩, given, keyAllowed := false } =
      { input := ⟨':' :: ' ' :: rest, m⟩, given, keyAllowed := false } := by
    simp [toNextToken, Input.starts, byteOrderMark, skipGap, isBreak]
  rw [step_of_calm hnext ⟨rfl, by simp, by simp⟩, addToken_colon rfl]
  exact ⟨_, rfl⟩

/-- A first key that is too long is given out as a text, and then the colon is misplaced. -/
theorem run_longKey_first (style : Style) {s : Scanner} {key : String} {rest : List Char} {m : Mark}
    {given : Nat}
    (hnext : s.toNextToken = atLine (quoted style key ++ ':' :: ' ' :: rest) m given [])
    (hlength : keyLimit < (quoted style key).length) :
    ∃ token fault, token.kind = .scalar key.toList false ∧
      ∀ n, run none (n + 2) s = .next token (.failed fault) := by
  obtain ⟨_, hkey⟩ := step_longKey style (by simp) hnext hlength
  obtain ⟨fault, hcolon⟩ :=
    step_misplacedColon rest (m.forward (quoted style key).length) (given + 1)
  refine ⟨⟨.scalar key.toList false, m, m.forward (quoted style key).length⟩, fault, rfl,
    fun n => ?_⟩
  have hrun : ∀ n, run none (n + 1)
      { input := ⟨':' :: ' ' :: rest, m.forward (quoted style key).length⟩, given := given + 1,
        keyAllowed := false } = .failed fault := fun n => by
    simp [run, hcolon, Cut.explain]
  rw [run_succ hkey (release_of_key rfl rfl) rfl (n + 1)]
  exact congrArg _ (hrun n)

/-- A later key that is too long is missing its colon. -/
theorem run_longKey_later (style : Style) {s : Scanner} {key : String} {rest : List Char} {m : Mark}
    {given : Nat} (hm : m.column = 0)
    (hnext : s.toNextToken = atLine (quoted style key ++ rest) m given [0])
    (hlength : keyLimit < (quoted style key).length) :
    ∃ fault, ∀ n, run none (n + 1) s = .failed fault := by
  obtain ⟨fault, hkey⟩ := step_longKey style (by simp) hnext hlength
  rw [if_pos (by simp [hm])] at hkey
  exact ⟨fault, fun n => by simp [run, hkey, Cut.explain]⟩

/-! ## Lines -/

/-- The tokens of an entry. -/
def entryKinds (e : String × String) : List TokenKind :=
  [.key, .scalar e.1.toList false, .value, .scalar e.2.toList false]

/-- One entry is three steps. -/
theorem run_entry (style : Style) {s : Scanner} {e : String × String} {rest : List Char} {m : Mark}
    {given : Nat} {indents : List Nat} (hindents : indents = [] ∨ indents = [0])
    (hm : m.column = 0) (hnext : s.toNextToken = atLine (entryLine style e ++ rest) m given indents)
    (hlength : (quoted style e.1).length ≤ keyLimit) :
    ∃ tokens m' given', tokens.map Token.kind = opening indents ++ entryKinds e ∧
      ∀ n, run none (n + 3) s = .prepend tokens (run none n (inLine ('\n' :: rest) m' given')) := by
  have hline : entryLine style e ++ rest =
      quoted style e.1 ++ ':' :: ' ' :: (quoted style e.2 ++ '\n' :: rest) := by
    simp [entryLine]
  rw [hline] at hnext
  obtain ⟨front, m₁, given₁, hfront, hkey⟩ := run_key style hindents hm hnext hlength
  obtain ⟨back, m₂, given₂, hback, hvalue⟩ := run_value style e.2 ('\n' :: rest) m₁ given₁
  refine ⟨front ++ back, m₂, given₂, by simp [hfront, hback, entryKinds], fun n => ?_⟩
  rw [hkey, hvalue, Tokens.prepend_append]

/-- The end of the text or the start of a quoted key. -/
def BeginsLine (rest : List Char) : Prop :=
  ∀ c ∈ rest.head?, c = '"'

theorem BeginsLine.entryLines {rest : List Char} (h : BeginsLine rest) (style : Style)
    (entries : List (String × String)) : BeginsLine (entryLines style entries ++ rest) := by
  cases entries with
  | nil => exact h
  | cons e entries => simp [BeginsLine, Yaml.entryLines, entryLine, quoted]

/-- A new line begins behind the line feed, and a key may begin there. -/
theorem toNextToken_inLine {rest : List Char} (hrest : BeginsLine rest) (m : Mark) (given : Nat) :
    (inLine ('\n' :: rest) m given).toNextToken = atLine rest (m.nextLine 1) given [0] := by
  cases rest with
  | nil =>
      simp [inLine, toNextToken, Input.starts, byteOrderMark, skipGap, isBreak, atLine, inFlow]
  | cons c rest =>
      obtain rfl := hrest c rfl
      simp [inLine, toNextToken, Input.starts, byteOrderMark, skipGap, isBreak, atLine, inFlow]

/-- A text begins at the start of a line. -/
theorem toNextToken_start {rest : List Char} (hrest : BeginsLine rest) :
    toNextToken { input := ⟨rest, {}⟩ } = atLine rest {} 0 [] := by
  cases rest with
  | nil => rfl
  | cons c rest =>
      obtain rfl := hrest c rfl
      simp [toNextToken, Input.starts, byteOrderMark, skipGap, isBreak, atLine]

/-- Entries are three steps each, and behind them stands what begins the next line. -/
theorem run_entries (style : Style) {entries : List (String × String)} {s : Scanner}
    {rest : List Char} {m : Mark} {given : Nat} {indents : List Nat}
    (hindents : indents = [] ∨ indents = [0]) (hm : m.column = 0) (hrest : BeginsLine rest)
    (hnext : s.toNextToken = atLine (entryLines style entries ++ rest) m given indents)
    (hlength : ∀ e ∈ entries, (quoted style e.1).length ≤ keyLimit) :
    ∃ tokens s' m' given' indents', s'.toNextToken = atLine rest m' given' indents' ∧
      m'.column = 0 ∧ (indents' = [] ∧ entries = [] ∨ indents' = [0]) ∧
      tokens.map Token.kind ++ opening indents' = opening indents ++ entries.flatMap entryKinds ∧
      ∀ n, run none (n + 3 * entries.length) s = .prepend tokens (run none n s') := by
  induction entries generalizing s m given indents with
  | nil =>
      refine ⟨[], s, m, given, indents, hnext, hm, ?_, by simp, fun n => rfl⟩
      exact hindents.imp_left fun h => ⟨h, rfl⟩
  | cons e entries ih =>
      obtain ⟨hkey, hkeys⟩ := List.forall_mem_cons.mp hlength
      have hline : entryLines style (e :: entries) ++ rest =
          entryLine style e ++ (entryLines style entries ++ rest) := by
        simp [entryLines]
      rw [hline] at hnext
      obtain ⟨front, m₁, given₁, hfront, hentry⟩ := run_entry style hindents hm hnext hkey
      obtain ⟨back, s', m₂, given₂, indents', hnext', hm', hindents', hback, hrun⟩ :=
        ih (.inr rfl) rfl (toNextToken_inLine (hrest.entryLines style entries) m₁ given₁) hkeys
      refine ⟨front ++ back, s', m₂, given₂, indents', hnext', hm', ?_, ?_, fun n => ?_⟩
      · exact .inr (hindents'.elim (fun h => by simp [h] at hback) id)
      · simpa [hfront] using hback
      · rw [List.length_cons, Nat.mul_succ, ← Nat.add_assoc, hentry, hrun, Tokens.prepend_append]

/-- The end of the text ends the mapping. -/
theorem run_end {s : Scanner} {m : Mark} {given : Nat} (hm : m.column = 0)
    (hnext : s.toNextToken = atLine [] m given [0]) (n : Nat) :
    run none (n + 1) s = .next ⟨.blockEnd, m, m⟩ (.ended m) := by
  obtain ⟨index, line, column⟩ := m
  obtain rfl : column = 0 := hm
  have hend : s.step none = .ok
      { input := ⟨[], ⟨index, line, 0⟩⟩
        queue := [⟨.blockEnd, ⟨index, line, 0⟩, ⟨index, line, 0⟩⟩]
        given
        keyAllowed := false
        ended := true } := by
    rw [step_of_calm hnext (calm_atLine (by simp))]
    rfl
  simp [run, hend, release, settled, Tokens.prepend, mark]

end Scanner

/-! ## Written texts -/

theorem Quoted.Prints.isAllowed {c : Char} (h : Prints c) : isAllowed c = true := by
  obtain ⟨hlow, hhigh⟩ := h
  simp [Yaml.isAllowed, hlow, hhigh]

theorem isAllowed_of_mem_entryLines {style : Style} {entries : List (String × String)} {c : Char}
    (h : c ∈ entryLines style entries) : isAllowed c = true := by
  obtain ⟨e, -, h⟩ := List.mem_flatMap.mp h
  simp only [entryLine, List.mem_append, List.mem_cons, List.not_mem_nil, or_false] at h
  rcases h with h | rfl | rfl | h | rfl
  · exact (prints_of_mem_quoted h).isAllowed
  · rfl
  · rfl
  · exact (prints_of_mem_quoted h).isAllowed
  · rfl

/-- A text of allowed characters is not cut off. -/
theorem Checking.cut?_eq_none {chars : List Char} (h : ∀ c ∈ chars, isAllowed c = true)
    (k : Checking) : k.cut? chars = none := by
  induction chars generalizing k with
  | nil => rfl
  | cons c chars ih =>
      obtain ⟨hc, hchars⟩ := List.forall_mem_cons.mp h
      simp only [cut?, hc, if_true]
      exact ih hchars _

theorem length_entryLines (style : Style) (entries : List (String × String)) :
    3 * entries.length ≤ (entryLines style entries).length := by
  induction entries with
  | nil => exact Nat.le_refl 0
  | cons e entries ih =>
      simp only [entryLines, List.flatMap_cons, List.length_append, List.length_cons] at ih ⊢
      have hline : 3 ≤ (entryLine style e).length := by
        simp [entryLine, quoted]
        omega
      omega

section Scan

variable (style : Style) {good : List (String × String)}
  (hgood : ∀ e ∈ good, (quoted style e.1).length ≤ Scanner.keyLimit)

include hgood

/-- Scanning a written mapping gives the tokens of the entries at its beginning, and goes on at
the line behind them. -/
theorem scan_mappingText (others : List (String × String)) :
    ∃ tokens s m given indents n,
      s.toNextToken = Scanner.atLine (entryLines style others) m given indents ∧
      m.column = 0 ∧ (indents = [] ∧ good = [] ∨ indents = [0]) ∧
      tokens.map Token.kind ++ Scanner.opening indents =
        .blockMappingStart :: good.flatMap Scanner.entryKinds ∧
      scan (mappingText style (good ++ others)) =
        .prepend tokens (Scanner.run none (n + 2) s) := by
  have hchars : entryLines style (good ++ others) =
      entryLines style good ++ entryLines style others := List.flatMap_append
  have hcut : Checking.cut? {} (entryLines style good ++ entryLines style others) = none := by
    rw [← hchars]
    exact Checking.cut?_eq_none (fun _ => isAllowed_of_mem_entryLines) {}
  have hbegins : Scanner.BeginsLine (entryLines style others) := by
    have hempty : Scanner.BeginsLine [] := by simp [Scanner.BeginsLine]
    simpa using hempty.entryLines style others
  obtain ⟨tokens, s, m, given, indents, hnext, hm, hindents, hkinds, hrun⟩ :=
    Scanner.run_entries style (.inl rfl) rfl hbegins
      (Scanner.toNextToken_start (hbegins.entryLines style good)) hgood
  obtain ⟨n, hn⟩ : ∃ n, (entryLines style good ++ entryLines style others).length + 2 =
      n + 2 + 3 * good.length := by
    have hlength := length_entryLines style good
    refine ⟨(entryLines style good ++ entryLines style others).length - 3 * good.length, ?_⟩
    rw [List.length_append]
    omega
  refine ⟨tokens, s, m, given, indents, n, hnext, hm, hindents, hkinds, ?_⟩
  rw [← hrun, ← hn]
  simp only [scan, mappingText, String.toList_ofList, hchars, hcut]

/-- The tokens of a written mapping with keys that are not too long. -/
theorem scan_mapping (hne : good ≠ []) :
    ∃ tokens m, tokens.map Token.kind =
        .blockMappingStart :: (good.flatMap Scanner.entryKinds ++ [.blockEnd]) ∧
      scan (mappingText style good) = .prepend tokens (.ended m) := by
  obtain ⟨tokens, s, m, given, indents, n, hnext, hm, hindents, hkinds, hscan⟩ :=
    scan_mappingText style hgood []
  obtain rfl : indents = [0] := hindents.resolve_left fun h => hne h.2
  rw [List.append_nil, Scanner.run_end hm hnext (n + 1)] at hscan
  refine ⟨tokens ++ [⟨.blockEnd, m, m⟩], m, ?_, ?_⟩
  · rw [Scanner.opening_cons, List.append_nil] at hkinds
    simp [hkinds]
  · rw [hscan, Tokens.prepend_append]
    rfl

variable (bad : String × String) (others : List (String × String))

/-- The tokens of a written mapping up to a key that is not too long. -/
theorem scan_shortKey (hbad : (quoted style bad.1).length ≤ Scanner.keyLimit) :
    ∃ tokens rest, tokens.map Token.kind =
        .blockMappingStart :: (good.flatMap Scanner.entryKinds ++
          [.key, .scalar bad.1.toList false, .value]) ∧
      scan (mappingText style (good ++ bad :: others)) = .prepend tokens rest := by
  obtain ⟨front, s, m, given, indents, n, hnext, hm, hindents, hkinds, hscan⟩ :=
    scan_mappingText style hgood (bad :: others)
  rw [entryLines_cons] at hnext
  obtain ⟨back, m', given', hback, hrun⟩ :=
    Scanner.run_key style (hindents.imp_left And.left) hm hnext hbad
  rw [hrun] at hscan
  refine ⟨front ++ back, _, ?_, hscan.trans (Tokens.prepend_append ..).symm⟩
  rw [List.map_append, hback, ← List.append_assoc, hkinds, List.cons_append]

/-- The tokens of a written mapping up to a key that is too long: none for the key if it is not the
first one, and else only the key as a text. -/
theorem scan_longKey (hbad : Scanner.keyLimit < (quoted style bad.1).length) :
    (∃ tokens fault, tokens.map Token.kind =
        .blockMappingStart :: good.flatMap Scanner.entryKinds ∧
      scan (mappingText style (good ++ bad :: others)) = .prepend tokens (.failed fault)) ∨
    (good = [] ∧ ∃ token fault, token.kind = .scalar bad.1.toList false ∧
      scan (mappingText style (good ++ bad :: others)) = .next token (.failed fault)) := by
  obtain ⟨front, s, m, given, indents, n, hnext, hm, hindents, hkinds, hscan⟩ :=
    scan_mappingText style hgood (bad :: others)
  rw [entryLines_cons] at hnext
  rcases hindents with ⟨rfl, rfl⟩ | rfl
  · obtain rfl : front = [] := by simpa using hkinds
    obtain ⟨token, fault, htoken, hrun⟩ := Scanner.run_longKey_first style hnext hbad
    exact .inr ⟨rfl, token, fault, htoken, hscan.trans (hrun n)⟩
  · obtain ⟨fault, hrun⟩ := Scanner.run_longKey_later style hm hnext hbad
    rw [hrun (n + 1)] at hscan
    exact .inl ⟨front, fault, by simpa using hkinds, hscan⟩

end Scan

end TreeListing.Yaml
