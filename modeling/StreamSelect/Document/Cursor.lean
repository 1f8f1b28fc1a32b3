/-!
Places in a document: what is still to be read and the column where it stands. Tokens are divided
by gaps, which are blanks, comments and line breaks; where tabs count as blanks depends on what
stands in front.
-/
namespace StreamSelect.Document

def isBlank (c : Char) : Bool := c = ' ' || c = '\t'

def isBreak (c : Char) : Bool :=
  c = '\n' || c = '\r' || c.toNat = 0x85 || c.toNat = 0x2028 || c.toNat = 0x2029

/-- Characters that may stand in a document. -/
def isPrintable (c : Char) : Bool :=
  let n := c.toNat
  isBreak c || n = 0x9 || (0x20 ≤ n && n ≤ 0x7e) || (0xa0 ≤ n && n ≤ 0xfffd) || 0x10000 ≤ n

/-- Writes every line break as a line feed. The functions below know no other break. -/
def unifyBreaks : List Char → List Char
  | '\r' :: '\n' :: rest => '\n' :: unifyBreaks rest
  | c :: rest => (if isBreak c then '\n' else c) :: unifyBreaks rest
  | [] => []

/-- Whether a word ends here: at a blank, at the end of a line or at the end of the text. -/
def atGap : List Char → Bool
  | [] => true
  | c :: _ => isBlank c || c = '\n'

def dropBlanks (text : List Char) : List Char := text.dropWhile isBlank

def byteOrderMark : Char := '\ufeff'

/-- Drops blanks, comments and line breaks. Tabs count as blanks on this line if `tabs`, and on the
lines behind it if `flow`. A byte order mark counts as a blank where a line starts; `start` says
that one starts here. -/
def dropGap (flow tabs start : Bool) : List Char → List Char
  | [] => []
  | c :: rest =>
    if c = '\n' then dropGap flow flow true rest
    else if c = ' ' || (c = '\t' && tabs) || (c = byteOrderMark && start) then
      dropGap flow tabs false rest
    else if c = '#' then dropComment rest
    else c :: rest
where
  /-- Drops a comment and the gap behind it. -/
  dropComment : List Char → List Char
    | [] => []
    | c :: rest => if c = '\n' then dropGap flow flow true rest else dropComment rest

/-- A place in a document. -/
structure Cursor where
  text : List Char
  column : Nat

namespace Cursor

/-- What stands between a place and `rest`, the remaining text of a later one. -/
def passed (c : Cursor) (rest : List Char) : List Char := c.text.take (c.text.length - rest.length)

/-- The later place whose remaining text is `rest`. -/
def goTo (c : Cursor) (rest : List Char) : Cursor :=
  { text := rest
    column := (c.passed rest).foldl (fun column x => if x = '\n' then 0 else column + 1) c.column }

/-- The place behind a gap. -/
def skip (flow tabs : Bool) (c : Cursor) : Cursor :=
  c.goTo (dropGap flow tabs (c.column = 0) c.text)

/-- The place behind a marker, which is three times the same character at the start of a line. -/
def marker? (c : Cursor) (mark : Char) : Option Cursor :=
  match c.text with
  | x :: y :: z :: rest =>
    if c.column = 0 ∧ x = mark ∧ y = mark ∧ z = mark ∧ atGap rest then some ⟨rest, 3⟩ else none
  | _ => none

/-- Whether nothing follows in this document. -/
def isOver (c : Cursor) : Bool :=
  c.text.isEmpty || (c.marker? '-').isSome || (c.marker? '.').isSome

end Cursor
end StreamSelect.Document
