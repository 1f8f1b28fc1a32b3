import StreamSelect.Expr.Basic
import StreamSelect.KeyedMap

/-!
Linking of aliases: a column without a source that names an earlier alias becomes a link to it,
which carries the expression that the alias stands for. Links are not entered, so linking is done
with the expressions as they were linked before.
-/
namespace StreamSelect

/-- The aliases declared so far with their linked expressions, the latest first. -/
abbrev Aliases := List (String × Expr)

/-- The expression of the latest declaration of an alias. -/
def Aliases.find? (aliases : Aliases) (name : String) : Option Expr :=
  KeyedMap.lookupEntry name aliases

/-- A column, or the link that replaces it. -/
def Column.link (c : Column) (aliases : Aliases) : Expr :=
  match c.source, aliases.find? c.name with
  | none, some body => .aliasRef c.name body
  | _, _ => .column c

namespace Expr

mutual

def link (aliases : Aliases) : Expr → Expr
  | .column c => c.link aliases
  | .aliasRef name body => .aliasRef name body
  | .literal l => .literal l
  | .binary op left right => .binary op (link aliases left) (link aliases right)
  | .unary op operand => .unary op (link aliases operand)
  | .call function args => .call function (linkAll aliases args)
  | .case operand branches otherwise =>
    .case (linkOption aliases operand) (linkBranches aliases branches)
      (linkOption aliases otherwise)
  | .member base key => .member (link aliases base) key
  | .element base position => .element (link aliases base) position
  | .slice base start stop => .slice (link aliases base) start stop
  | .star except replace => .star except (linkReplacements aliases replace)

def linkAll (aliases : Aliases) : List Expr → List Expr
  | [] => []
  | e :: rest => link aliases e :: linkAll aliases rest

def linkOption (aliases : Aliases) : Option Expr → Option Expr
  | none => none
  | some e => some (link aliases e)

def linkBranches (aliases : Aliases) : List (Expr × Expr) → List (Expr × Expr)
  | [] => []
  | (condition, result) :: rest =>
    (link aliases condition, link aliases result) :: linkBranches aliases rest

def linkReplacements (aliases : Aliases) : List (Expr × String) → List (Expr × String)
  | [] => []
  | (e, name) :: rest => (link aliases e, name) :: linkReplacements aliases rest

end

end Expr
end StreamSelect
