import StreamSelect.Binary64.Text
import StreamSelect.Decimal.Text
import StreamSelect.Value.Basic

/-!
The texts of values: the plain text that functions and faults show, and JSON. Both write mappings
in key order, so equal values have equal texts.
-/
namespace StreamSelect.Value

/-- Plain text shows a double positionally, whatever its size, and a whole one without a point. -/
def plainNotation : Binary64.Notation64 where
  tie := .up
  positional := none
  keepsPoint := false
  nan := "NaN"
  infinity := "inf"
  negativeInfinity := "-inf"

/-- JSON shows a double positionally from five zeros after the point to sixteen digits before it,
and keeps the point. It has no word for what is not a finite number. -/
def jsonNotation : Binary64.Notation64 where
  tie := .even
  positional := some (-5, 15)
  keepsPoint := true
  nan := "null"
  infinity := "null"
  negativeInfinity := "null"

mutual

/-- The plain text. -/
def render : Value → String
  | .null => "NULL"
  | .boolean b => if b then "true" else "false"
  | .integer i => toString i.toInt
  | .float x => Binary64.render plainNotation x
  | .decimal d => d.render
  | .text s => s
  | .timestamp t => t.render
  | .array items => "[" ++ String.intercalate ", " (renderItems items) ++ "]"
  | .map entries => "\x7b" ++ String.intercalate ", " (renderEntries entries) ++ "\x7d"

def renderItems : List Value → List String
  | [] => []
  | v :: vs => render v :: renderItems vs

def renderEntries : List (String × Value) → List String
  | [] => []
  | (k, v) :: es => (k ++ ": " ++ render v) :: renderEntries es

end

/-- The plain text, in which a timestamp that is not inside another value shows milliseconds. -/
def display : Value → String
  | .timestamp t => t.renderMillis
  | v => v.render

/-- A character inside a JSON string. -/
def jsonChar (c : Char) : List Char :=
  if c = '"' then ['\\', '"']
  else if c = '\\' then ['\\', '\\']
  else if c = '\n' then ['\\', 'n']
  else if c = '\r' then ['\\', 'r']
  else if c = '\t' then ['\\', 't']
  else if c.toNat = 8 then ['\\', 'b']
  else if c.toNat = 12 then ['\\', 'f']
  else if c.toNat < 32 then
    ['\\', 'u', '0', '0', Nat.digitChar (c.toNat / 16), Nat.digitChar (c.toNat % 16)]
  else [c]

def jsonText (s : String) : String :=
  String.ofList ('"' :: s.toList.flatMap jsonChar ++ ['"'])

mutual

/-- The JSON text without blanks. Decimals and timestamps are strings. -/
def json : Value → String
  | .null => "null"
  | .boolean b => if b then "true" else "false"
  | .integer i => toString i.toInt
  | .float x => Binary64.render jsonNotation x
  | .decimal d => jsonText d.render
  | .text s => jsonText s
  | .timestamp t => jsonText t.renderMillis
  | .array items => "[" ++ String.intercalate "," (jsonItems items) ++ "]"
  | .map entries => "\x7b" ++ String.intercalate "," (jsonEntries entries) ++ "\x7d"

def jsonItems : List Value → List String
  | [] => []
  | v :: vs => json v :: jsonItems vs

def jsonEntries : List (String × Value) → List String
  | [] => []
  | (k, v) :: es => (jsonText k ++ ":" ++ json v) :: jsonEntries es

end

end StreamSelect.Value
