import StreamSelect.Document.Tag

/-!
Words of a document and the forms in which they are written: plain, in quotes, or as a block of one
line. A word holds no blanks and no line breaks; text that does is not read or read as a word that
no one knows.
-/
namespace StreamSelect.Document

/-- How a word is written. -/
inductive Style
  | plain
  | quoted
  | literal
  | folded
  deriving DecidableEq, Repr

/-- A word with its form and its tag. -/
structure Scalar where
  text : List Char
  style : Style
  tag : Option (List Char) := none

def isFlowIndicator (c : Char) : Bool := [',', '[', ']', '\x7b', '\x7d'].contains c

/-- Characters with which no plain word begins here. -/
def isIndicator (c : Char) : Bool :=
  isFlowIndicator c || ['-', '?', ':', '#', '&', '*', '!', '|', '>', '\x27', '"', '%', '@',
    '\x60'].contains c

/-- Reads a plain word, which ends at a gap, at a colon before a gap and in flow style at an
indicator. -/
def plainWord (flow : Bool) : List Char → List Char × List Char
  | [] => ([], [])
  | c :: rest =>
    if isBlank c || c = '\n' || (flow && isFlowIndicator c) || (c = ':' && atGap rest) then
      ([], c :: rest)
    else
      let (word, after) := plainWord flow rest
      (c :: word, after)

/-- Finds the end of a plain word in block style: a comment, the end of the text, or on a later line
a place in front of column `floor`. There is none if the text goes on with another word. The first
argument is the column on a later line. Tabs may not stand in front of column `floor`. -/
def afterBlockWord? (floor : Nat) : Option Nat → List Char → Option (List Char)
  | _, [] => some []
  | column?, c :: rest =>
    if c = '\n' then afterBlockWord? floor (some 0) rest
    else if c = '#' then some (c :: rest)
    else
      match column? with
      | none => if isBlank c then afterBlockWord? floor none rest else none
      | some column =>
        if c = ' ' || (c = '\t' && floor ≤ column) then
          afterBlockWord? floor (some (column + 1)) rest
        else if c ≠ '\t' && column < floor then some (c :: rest)
        else none

/-- Finds the end of a plain word in flow style: a comment, the end of the entry, or the colon
behind a key. -/
def afterFlowWord? (text : List Char) : Option (List Char) :=
  match text.dropWhile fun c => isBlank c || c = '\n' with
  | [] => some []
  | c :: rest =>
    if c = '#' || c = ',' || c = '\x7d' || (c = ':' && atGap rest) then some (c :: rest) else none

/-- Reads to the closing single quote; two of them stand for one. -/
def singleQuoted : List Char → Option (List Char × List Char)
  | '\x27' :: '\x27' :: rest => (singleQuoted rest).map fun (text, after) => ('\x27' :: text, after)
  | '\x27' :: rest => some ([], rest)
  | c :: rest => (singleQuoted rest).map fun (text, after) => (c :: text, after)
  | [] => none

/-- Reads to the closing double quote. Characters may be given by their number, and a line break
behind a backslash counts for nothing, as do the blanks after it; no other escape stands for a
character of a word. -/
def doubleQuoted : Nat → List Char → Option (List Char × List Char)
  | 0, _ => none
  | fuel + 1, text =>
    let numbered (width : Nat) (rest : List Char) : Option (List Char × List Char) := do
      if rest.length < width then none
      let code ← (rest.take width).foldlM (fun n c => (hexDigit? c).map (16 * n + ·)) 0
      let (text, after) ← doubleQuoted fuel (rest.drop width)
      return (Char.ofNat code :: text, after)
    match text with
    | '"' :: rest => some ([], rest)
    | '\\' :: 'x' :: rest => numbered 2 rest
    | '\\' :: 'u' :: rest => numbered 4 rest
    | '\\' :: 'U' :: rest => numbered 8 rest
    | '\\' :: '\n' :: rest => doubleQuoted fuel (dropBlanks rest)
    | '\\' :: _ => none
    | c :: rest => (doubleQuoted fuel rest).map fun (text, after) => (c :: text, after)
    | [] => none

/-- What stands behind the indicator of a block: whether the last break is dropped, and how far the
block is indented. -/
def blockHeader (text : List Char) : Bool × Option Nat × List Char :=
  let sign (text : List Char) : Option Bool × List Char :=
    match text with
    | '+' :: rest => (some false, rest)
    | '-' :: rest => (some true, rest)
    | _ => (none, text)
  let step (text : List Char) : Option Nat × List Char :=
    match text with
    | c :: rest => if '1' ≤ c ∧ c ≤ '9' then (some (c.toNat - '0'.toNat), rest) else (none, text)
    | [] => (none, [])
  let (first, text) := sign text
  let (indent?, text) := step text
  let (second, text) := if first.isNone then sign text else (none, text)
  ((first.or second).getD false, indent?, text)

/-- Finds the end of a block of one line, indented by `indent`. There is none if another line of the
block or a tab follows. The first argument is the column. -/
def afterBlock? (indent : Nat) : Nat → List Char → Option (List Char)
  | _, [] => some []
  | column, c :: rest =>
    if c = '\n' then afterBlock? indent 0 rest
    else if column = indent then none
    else if c = ' ' then afterBlock? indent (column + 1) rest
    else if c = '\t' then none
    else some (c :: rest)

/-- Reads a block of one line behind its indicator. It stands deeper than column `indent`. Unless
the header drops the line break, the break is part of the text and this is no word. -/
def blockWord? (indent : Nat) (text : List Char) : Option (List Char × List Char) :=
  let (stripped, step?, rest) := blockHeader text
  match dropBlanks rest with
  | [] => none
  | c :: rest =>
    if c ≠ '#' && c ≠ '\n' then none
    else
      let line := ((c :: rest).dropWhile (· ≠ '\n')).drop 1
      let spaces := (line.takeWhile (· = ' ')).length
      let text := line.drop spaces
      let word := text.takeWhile (· ≠ '\n')
      if spaces ≤ indent || !step?.all (spaces = indent + ·) || word.isEmpty then none
      else
        match text.dropWhile (· ≠ '\n') with
        | [] => some (word, [])
        | after => if stripped then (afterBlock? spaces 0 (after.drop 1)).map (word, ·) else none

end StreamSelect.Document
