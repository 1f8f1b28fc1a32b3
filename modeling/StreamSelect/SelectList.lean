import StreamSelect.Expr.Basic

/-!
The fields of a SELECT list as they are declared.
-/
namespace StreamSelect

inductive Item
  /-- A bare column, written under its own name. -/
  | column (column : Column)
  /-- An expression, with the alias it is declared under if there is one. -/
  | computed (e : Expr) (alias? : Option String)
  /-- All fields but `except`, with replacements. -/
  | star (except : List String) (replace : List (Expr × String))
  /-- All fields of one source. -/
  | sourceStar (source : String)
  deriving Inhabited

/-- A field of the list. A hidden one is computed but not written. -/
structure Declaration where
  item : Item
  hidden : Bool := false
  deriving Inhabited

/-- The columns that a field refers to. -/
def Item.columns : Item → List Column
  | .column c => [c]
  | .computed e _ => e.columns
  | .star _ replace => replace.flatMap fun r => r.1.columns
  | .sourceStar _ => []

end StreamSelect
