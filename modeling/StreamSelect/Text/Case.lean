import StreamSelect.Text.CaseTable

/-!
Upper and lower case of texts in the full mappings of Unicode, and comparison that ignores the case
of ASCII letters alone. A capital sigma at the end of a word becomes the final form.
-/
namespace StreamSelect.Text

def CaseRun.contains (run : CaseRun) (code : Nat) : Bool :=
  run.first ≤ code ∧ code ≤ run.last ∧ (code - run.first) % run.step = 0

/-- The characters that replace a character under runs and expansions; itself if none applies. -/
def mapChar (runs : List CaseRun) (expansions : List (Nat × List Nat)) (c : Char) : List Char :=
  match runs.find? (·.contains c.toNat) with
  | some run => [Char.ofNat (c.toNat + run.shift).toNat]
  | none => ((expansions.lookup c.toNat).map (·.map Char.ofNat)).getD [c]

def upperChar (c : Char) : List Char := mapChar upperRuns upperExpansions c

def lowerChar (c : Char) : List Char := mapChar lowerRuns lowerExpansions c

def inRanges (ranges : List (Nat × Nat)) (c : Char) : Bool :=
  ranges.any fun (first, last) => first ≤ c.toNat ∧ c.toNat ≤ last

/-- Whether the first character that is not passed over is a letter with a case. -/
def meetsCased (chars : List Char) : Bool :=
  match chars.dropWhile (inRanges ignorableRanges) with
  | [] => false
  | c :: _ => inRanges casedRanges c

/-- The lower case of a text whose characters before it are `before`, nearest first. -/
def lowerFrom (before : List Char) : List Char → List Char
  | [] => []
  | c :: rest =>
    let here :=
      if c = 'Σ' then [if meetsCased before ∧ !meetsCased rest then 'ς' else 'σ'] else lowerChar c
    here ++ lowerFrom (c :: before) rest

def upper (s : String) : String := String.ofList (s.toList.flatMap upperChar)

def lower (s : String) : String := String.ofList (lowerFrom [] s.toList)

/-- Equality up to the case of ASCII letters. -/
def sameIgnoringCase (a b : String) : Bool :=
  a.toList.map Char.toLower == b.toList.map Char.toLower

theorem sameIgnoringCase_refl (a : String) : sameIgnoringCase a a = true := by
  simp [sameIgnoringCase]

theorem sameIgnoringCase_comm (a b : String) : sameIgnoringCase a b = sameIgnoringCase b a := by
  simp only [sameIgnoringCase]
  exact Bool.beq_comm

/-- Blanks of Unicode. -/
def blankRanges : List (Nat × Nat) := [
  (0x9, 0xd), (0x20, 0x20), (0x85, 0x85), (0xa0, 0xa0), (0x1680, 0x1680), (0x2000, 0x200a),
  (0x2028, 0x2029), (0x202f, 0x202f), (0x205f, 0x205f), (0x3000, 0x3000)]

/-- A text without the blanks at both ends. -/
def trim (s : String) : String :=
  let blank := inRanges blankRanges
  String.ofList ((s.toList.dropWhile blank).reverse.dropWhile blank).reverse

end StreamSelect.Text
