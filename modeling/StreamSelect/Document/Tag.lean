import StreamSelect.Document.Cursor

/-!
Tags of nodes, and the directives in front of a document. A tag is written in full or with a handle
that stands for its first part; directives add handles. A tag with an unknown handle makes the
document unreadable, also where the tag itself plays no part.
-/
namespace StreamSelect.Document

/-- Characters of handles, of anchors and of the names of directives. -/
def isNameChar (c : Char) : Bool := c.isAlphanum || c = '-' || c = '_'

/-- Handles with the text that each stands for. -/
abbrev Handles := List (List Char × List Char)

/-- The tag of booleans. -/
def boolTag : List Char := "tag:yaml.org,2002:bool".toList

def defaultHandles : Handles := [(['!'], ['!']), (['!', '!'], "tag:yaml.org,2002:".toList)]

/-- The text of a handle, also of one that no directive adds. -/
def Handles.find? (handles : Handles) (handle : List Char) : Option (List Char) :=
  (handles ++ defaultHandles).lookup handle

def hexDigit? (c : Char) : Option Nat :=
  if c.isDigit then some (c.toNat - '0'.toNat)
  else if 'a' ≤ c.toLower ∧ c.toLower ≤ 'f' then some (c.toLower.toNat - 'a'.toNat + 10)
  else none

/-- How many bytes follow a first byte of UTF-8. -/
def trailingBytes? (byte : Nat) : Option Nat :=
  if byte < 0x80 then some 0
  else if byte / 0x20 = 6 then some 1
  else if byte / 0x10 = 14 then some 2
  else if byte / 8 = 30 then some 3
  else none

/-- Reads the characters of a tag. A byte may be given as two hexadecimal digits after `%`, the
bytes of one character in a row; each byte becomes a character of that number. Commas and brackets
count if `wide`. `pending` is the number of bytes that are due. -/
def tagText (wide : Bool) : Nat → List Char → Option (List Char × List Char)
  | pending, '%' :: a :: b :: rest => do
    let byte := 16 * (← hexDigit? a) + (← hexDigit? b)
    let pending ←
      match pending with
      | 0 => trailingBytes? byte
      | due + 1 => if byte / 0x40 = 2 then some due else none
    let (text, after) ← tagText wide pending rest
    return (Char.ofNat byte :: text, after)
  | 0, c :: rest =>
    if isNameChar c || [';', '/', '?', ':', '@', '&', '=', '+', '$', '.', '!', '~', '*', '\x27', '(',
        ')'].contains c || (wide && [',', '[', ']'].contains c) then
      (tagText wide 0 rest).map fun (text, after) => (c :: text, after)
    else if c = '%' then none
    else some ([], c :: rest)
  | 0, [] => some ([], [])
  | _ + 1, _ => none

/-- Reads a tag behind its exclamation mark. -/
def tag? (handles : Handles) (flow : Bool) (text : List Char) : Option (List Char × List Char) := do
  let (tag, rest) ←
    match text with
    | '<' :: inside => do
      match ← tagText true 0 inside with
      | ([], _) => none
      | (tag, '>' :: rest) => some (tag, rest)
      | _ => none
    | _ => do
      let name := text.takeWhile isNameChar
      match text.dropWhile isNameChar with
      | '!' :: more =>
        match ← tagText false 0 more with
        | ([], _) => none
        | (suffix, rest) => some ((← handles.find? ('!' :: name ++ ['!'])) ++ suffix, rest)
      | more =>
        let (suffix, rest) ← tagText false 0 more
        if (name ++ suffix).isEmpty then some (['!'], rest)
        else some ((← handles.find? ['!']) ++ name ++ suffix, rest)
  if atGap rest || (flow && rest.head? == some ',') then some (tag, rest) else none

/-- What the directives of a document say. -/
structure Preamble where
  versioned : Bool := false
  handles : Handles := []

namespace Preamble

def isEmpty (p : Preamble) : Bool := !p.versioned && p.handles.isEmpty

/-- The number that at most nine digits stand for. -/
def number? (digits : List Char) : Option Nat :=
  if digits.isEmpty || 9 < digits.length then none
  else some (digits.foldl (fun n c => 10 * n + (c.toNat - '0'.toNat)) 0)

/-- Reads the value of a version directive, which is 1.1 or 1.2 and may be given once. -/
def version? (p : Preamble) (text : List Char) : Option (Preamble × List Char) := do
  let major ← number? (text.takeWhile Char.isDigit)
  match text.dropWhile Char.isDigit with
  | '.' :: more =>
    let minor ← number? (more.takeWhile Char.isDigit)
    if p.versioned || major ≠ 1 || (minor ≠ 1 && minor ≠ 2) then none
    else some ({ p with versioned := true }, more.dropWhile Char.isDigit)
  | _ => none

/-- Reads the value of a tag directive, a handle and its text. A handle may be given once. -/
def handle? (p : Preamble) : List Char → Option (Preamble × List Char)
  | '!' :: text => do
    let name := text.takeWhile isNameChar
    let (handle, rest) ←
      match text.dropWhile isNameChar with
      | '!' :: rest => some ('!' :: name ++ ['!'], rest)
      | rest => if name.isEmpty then some (['!'], rest) else none
    let (value, after) ← tagText true 0 (dropBlanks rest)
    if !rest.head?.any isBlank || value.isEmpty || !atGap after ||
        (p.handles.lookup handle).isSome then
      none
    else some ({ p with handles := (handle, value) :: p.handles }, after)
  | _ => none

/-- Reads a directive behind its percent sign, to the end of its line. There are two kinds. -/
def directive? (p : Preamble) (text : List Char) : Option (Preamble × List Char) := do
  let name := text.takeWhile isNameChar
  let rest := text.dropWhile isNameChar
  if !atGap rest then none
  let (p, rest) ←
    if name = "YAML".toList then p.version? (dropBlanks rest)
    else if name = "TAG".toList then p.handle? (dropBlanks rest)
    else none
  match dropBlanks rest with
  | [] => some (p, [])
  | c :: rest =>
    if c = '#' || c = '\n' then some (p, ((c :: rest).dropWhile (· ≠ '\n')).drop 1) else none

/-- Reads all directives. On the line behind one, tabs count as blanks. -/
def read? : Nat → Preamble → Cursor → Option (Preamble × Cursor)
  | 0, _, _ => none
  | fuel + 1, p, c =>
    match c.text with
    | '%' :: text => do
      if c.column ≠ 0 then none
      let (p, rest) ← p.directive? text
      read? fuel p (Cursor.skip false true ⟨rest, 0⟩)
    | _ => some (p, c)

end Preamble
end StreamSelect.Document
