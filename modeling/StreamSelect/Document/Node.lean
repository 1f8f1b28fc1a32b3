import StreamSelect.Document.Scalar

/-!
Nodes: words with an anchor and a tag in front, or the alias of an anchor. A key of one line needs
no mark in front; any other key has a question mark.
-/
namespace StreamSelect.Document

/-- The anchors so far. Anchors are numbered by how many other names there are, and a number keeps
only its latest node; a mapping is no word. -/
structure Anchors where
  numbers : List (List Char × Nat) := []
  nodes : List (Nat × Option Scalar) := []

namespace Anchors

def define (a : Anchors) (name? : Option (List Char)) (node : Option Scalar) : Anchors :=
  match name? with
  | none => a
  | some name =>
    let number := a.numbers.length
    { numbers := (name, number) :: a.numbers.filter (·.1 ≠ name)
      nodes := (number, node) :: a.nodes }

/-- The word that an alias stands for. -/
def find? (a : Anchors) (name : List Char) : Option Scalar := do
  (← a.nodes.lookup (← a.numbers.lookup name))

end Anchors

/-- What stands in front of a node. -/
structure Properties where
  anchor : Option (List Char) := none
  tag : Option (List Char) := none

namespace Properties

/-- Reads an anchor and a tag, in either order and each at most once. `next?` goes to the token
behind each. -/
def read? (handles : Handles) (flow : Bool) (next? : Cursor → Option Cursor) :
    Nat → Properties → Cursor → Option (Properties × Cursor)
  | 0, p, c => some (p, c)
  | fuel + 1, p, c =>
    match c.text with
    | '&' :: rest => do
      let name := rest.takeWhile isNameChar
      let after := rest.dropWhile isNameChar
      if p.anchor.isSome || name.isEmpty || !atGap after then none
      read? handles flow next? fuel { p with anchor := some name } (← next? (c.goTo after))
    | '!' :: rest => do
      let (tag, after) ← tag? handles flow rest
      if p.tag.isSome then none
      read? handles flow next? fuel { p with tag := some tag } (← next? (c.goTo after))
    | _ => some (p, c)

def isEmpty (p : Properties) : Bool := p.anchor.isNone && p.tag.isNone

/-- The properties together, if neither is given twice. -/
def merge? (p q : Properties) : Option Properties :=
  if (p.anchor.isSome && q.anchor.isSome) || (p.tag.isSome && q.tag.isSome) then none
  else some { anchor := p.anchor.or q.anchor, tag := p.tag.or q.tag }

end Properties

/-- Where nodes stand: in flow style, or in a block mapping whose keys stand at `indent`. -/
structure Context where
  handles : Handles
  flow : Bool
  indent : Nat := 0

namespace Context

/-- Goes to the next token, which in block style stands deeper than the keys; only the indicator of
a block may stand in their column. Tabs count as blanks on this line if `tabs`. -/
def next? (x : Context) (tabs : Bool) (c : Cursor) : Option Cursor :=
  let c := c.skip x.flow (x.flow || tabs)
  let isBlock := c.text.head?.any fun mark => mark = '|' || mark = '>'
  if x.flow || x.indent < c.column || (x.indent = c.column && isBlock) then some c else none

/-- Reads an alias or a word in any form, and says whether it is a plain one. -/
def content? (x : Context) (a : Anchors) (p : Properties) (text : List Char) :
    Option (Scalar × Bool × List Char) :=
  let word (style : Style) (read : List Char × List Char) : Scalar × Bool × List Char :=
    (⟨read.1, style, p.tag⟩, false, read.2)
  match text with
  | '*' :: rest => do
    let after := rest.dropWhile isNameChar
    if !p.isEmpty || !(atGap after || after.head?.any fun c => c = ':' || c = ',' || c = '\x7d') then
      none
    return (← a.find? (rest.takeWhile isNameChar), false, after)
  | '\x27' :: rest => (singleQuoted rest).map (word .quoted)
  | '"' :: rest => (doubleQuoted (rest.length + 1) rest).map (word .quoted)
  | '|' :: rest => if x.flow then none else (blockWord? x.indent rest).map (word .literal)
  | '>' :: rest => if x.flow then none else (blockWord? x.indent rest).map (word .folded)
  | [] => none
  | c :: _ =>
    let (text, after) := plainWord x.flow text
    if text.isEmpty || isIndicator c then none else some (⟨text, .plain, p.tag⟩, true, after)

/-- Reads a node and goes to the token behind it. On the line where the node ends tabs count as
blanks; a node that takes the break with it ends before the next line starts. -/
def node? (x : Context) (a : Anchors) (c : Cursor) : Option (Anchors × Scalar × Cursor) := do
  let (p, c) ← Properties.read? x.handles x.flow (x.next? true) 2 {} c
  let (scalar, plain, rest) ← x.content? a p c.text
  let rest ←
    if !plain then some rest
    else if x.flow then afterFlowWord? rest
    else afterBlockWord? (x.indent + 1) none rest
  let c := c.goTo rest
  return (a.define p.anchor scalar, scalar, c.skip x.flow (x.flow || c.column ≠ 0))

/-- Reads a key without a question mark and the colon behind it. Both stand on one line, the colon
at most 1024 characters behind the start of the key. In flow style the colon may touch the value if
the key is not plain. -/
def shortKey? (x : Context) (a : Anchors) (c : Cursor) : Option (Anchors × Scalar × Cursor) := do
  let blanks (c : Cursor) : Option Cursor := some (c.goTo (dropBlanks c.text))
  let (p, start) ← Properties.read? x.handles x.flow blanks 2 {} c
  let (scalar, plain, rest) ← x.content? a p start.text
  match dropBlanks rest with
  | ':' :: after =>
    let passed := c.passed (':' :: after)
    if passed.length ≤ 1024 && !passed.contains '\n' && (atGap after || (x.flow && !plain)) then
      some (a.define p.anchor scalar, scalar, c.goTo after)
    else none
  | _ => none

end Context
end StreamSelect.Document
