import StreamSelect.Document.Node

/-!
Documents that hold one mapping of words to words, in block or in flow style. Sequences, nested
mappings and texts of several words are not read.
-/
namespace StreamSelect.Document

/-- A key and its value. -/
structure Entry where
  key : Scalar
  value : Scalar

namespace Context

/-- Reads an entry and goes to the token behind it. Behind a question mark, and behind the colon of
a key that has one, tabs do not count as blanks. -/
def entry? (x : Context) (a : Anchors) (c : Cursor) : Option (Anchors × Entry × Cursor) := do
  let marked? := match c.text with
    | '?' :: rest => if x.flow || atGap rest then some rest else none
    | _ => none
  let (a, key, c) ←
    match marked? with
    | none => x.shortKey? a c
    | some rest => do
      let (a, key, c) ← x.node? a (← x.next? false (c.goTo rest))
      match c.text with
      | ':' :: after =>
        if x.flow || (c.column = x.indent && atGap after) then some (a, key, c.goTo after) else none
      | _ => none
  let (a, value, c) ← x.node? a (← x.next? marked?.isNone c)
  return (a, ⟨key, value⟩, c)

/-- Reads the entries of a block mapping, each of which begins at its indentation. -/
def block? (x : Context) : Nat → Anchors → Cursor → Option (List Entry × Cursor)
  | 0, _, _ => none
  | fuel + 1, a, c =>
    if c.isOver then some ([], c)
    else if c.column ≠ x.indent then none
    else do
      let (a, entry, c) ← x.entry? a c
      let (entries, c) ← block? x fuel a c
      return (entry :: entries, c)

/-- Reads the entries of a flow mapping behind its opening brace or behind a comma, and goes to the
token behind its closing brace. -/
def flow? (x : Context) : Nat → Anchors → Cursor → Option (List Entry × Cursor)
  | 0, _, _ => none
  | fuel + 1, a, c => do
    let c ← x.next? true c
    match c.text with
    | '\x7d' :: rest => some ([], (c.goTo rest).skip false true)
    | _ =>
      let (a, entry, c) ← x.entry? a c
      match c.text with
      | '\x7d' :: rest => some ([entry], (c.goTo rest).skip false true)
      | ',' :: rest =>
        let (entries, c) ← flow? x fuel a (c.goTo rest)
        return (entry :: entries, c)
      | _ => none

end Context

/-- Reads the only node of a document, a mapping or nothing. Anchor and tag of the mapping stand in
front of its brace or on lines of their own; `fresh` says that a block mapping may begin here, which
it may not on the line of a marker. -/
def root? (handles : Handles) :
    Nat → Bool → Properties → Cursor → Option (List Entry × Cursor)
  | 0, _, _, _ => none
  | fuel + 1, fresh, p, c => do
    let blanks (c : Cursor) : Option Cursor := some (c.goTo (dropBlanks c.text))
    let (line, start) ← Properties.read? handles false blanks 2 {} c
    let anchors (p : Properties) : Anchors := Anchors.define {} p.anchor none
    match start.text with
    | '\x7b' :: rest =>
      let p ← p.merge? line
      Context.flow? ⟨handles, true, 0⟩ (rest.length + 1) (anchors p) (start.goTo rest)
    | text =>
      if text.isEmpty || text.head? = some '\n' || text.head? = some '#' then
        let p ← p.merge? line
        let c := start.skip false true
        if c.isOver then some ([], c) else root? handles fuel true p c
      else if fresh then
        Context.block? ⟨handles, false, c.column⟩ (c.text.length + 1) (anchors p) c
      else none

/-- Whether nothing but end markers follows. -/
def isClosed : Nat → Cursor → Bool
  | 0, _ => false
  | fuel + 1, c =>
    match c.marker? '.' with
    | some after => isClosed fuel (after.skip false true)
    | none => c.text.isEmpty

/-- Reads the entries of the only document of a text. An empty document has none. -/
def entries? (text : String) : Option (List Entry) := do
  let chars := text.toList
  if !chars.all isPrintable then none
  let chars := unifyBreaks chars
  let fuel := chars.length + 1
  let (preamble, c) ← Preamble.read? fuel {} (Cursor.skip false false ⟨chars, 0⟩)
  let (entries, c) ←
    match c.marker? '-' with
    | some after => root? preamble.handles fuel false {} (after.goTo (dropBlanks after.text))
    | none =>
      if !preamble.isEmpty || (c.marker? '.').isSome then none
      else if c.text.isEmpty then some ([], c)
      else root? [] fuel true {} c
  if isClosed fuel c then some entries else none

end StreamSelect.Document
