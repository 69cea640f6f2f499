import TreeListing.Text.CaseTable

/-!
# Lower case

Each character of a text is replaced by its lower case.  Two characters need more than
the table of single mappings: the capital I with a dot above becomes two characters,
and a capital sigma becomes a final sigma at the end of a word.
-/

namespace TreeListing.Text

/-- The lower case of a character, apart from its place in a text. -/
def lowerChar (c : Char) : List Char :=
  if c = Char.ofNat 0x130 then ['i', Char.ofNat 0x307]
  else match lowerRuns.find? (·.holds c.toNat) with
    | some run => [Char.ofNat (c.toNat + run.shift).toNat]
    | none => [c]

/-- Whether the first character that case rules do not look past has a case. -/
def meetsCased (cs : List Char) : Bool :=
  match cs.dropWhile caseIgnorable.contains with
  | c :: _ => cased.contains c
  | [] => false

/-- The lower case of the characters after those in `before`, the nearest of them
first.  A capital sigma is final if a cased character comes before it and none after. -/
def lowerAfter (before : List Char) : List Char → List Char
  | [] => []
  | c :: rest =>
      if c = 'Σ' then
        (if meetsCased before && !meetsCased rest then 'ς' else 'σ')
          :: lowerAfter (c :: before) rest
      else lowerChar c ++ lowerAfter (c :: before) rest

/-- The lower case of a text. -/
def lowerCase (s : String) : String :=
  String.ofList (lowerAfter [] s.toList)

end TreeListing.Text
