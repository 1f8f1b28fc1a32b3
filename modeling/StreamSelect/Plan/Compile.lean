import StreamSelect.Function.Basic
import StreamSelect.Plan.Alias
import StreamSelect.Plan.Layout
import StreamSelect.SelectList

/-!
Compilation of SELECT lists. Declarations are taken in order; each sees the aliases declared before
it and never its own. An expression without an alias is named after its function, or gets the next
placeholder name.
-/
namespace StreamSelect

/-- A plan under construction. -/
structure Draft where
  aliases : Aliases := []
  fields : List PlannedField := []
  star : Option Star := none
  sourceStars : List String := []
  /-- The number of placeholder names given so far. -/
  placeholders : Nat := 0
  deriving Inhabited

namespace Draft

def addField (d : Draft) (form : FieldForm) (hidden : Bool) : Draft :=
  { d with fields := d.fields ++ [⟨form, hidden⟩] }

/-- Adds an expression without an alias. -/
def addUnnamed (d : Draft) (e : Expr) (hidden : Bool) : Draft :=
  match e with
  | .column c => d.addField (.column c) hidden
  | .call function _ => d.addField (.derived function (e.link d.aliases)) hidden
  | _ =>
    { d.addField (.derived (placeholderName d.placeholders) (e.link d.aliases)) hidden with
      placeholders := d.placeholders + 1 }

/-- Adds an expression under an alias, which later declarations see. -/
def addAlias (d : Draft) (name : String) (e : Expr) (hidden : Bool) : Draft :=
  let linked := e.link d.aliases
  { d.addField (.alias name linked) hidden with aliases := (name, linked) :: d.aliases }

/-- Adds what a star asks for to what earlier stars did. -/
def addStar (d : Draft) (except : List String) (replace : List (Expr × String)) : Outcome Draft :=
  if replace.any fun r => r.2.isEmpty then
    .error (.failure "REPLACE entries must name the field they replace")
  else
    let before := d.star.getD {}
    let added := replace.map fun r => Replacement.mk r.2 (r.1.link d.aliases)
    .ok { d with star := some ⟨before.except ++ except, before.replace ++ added⟩ }

/-- Adds all fields of a source; a second time changes nothing. -/
def addSourceStar (d : Draft) (source : String) : Outcome Draft :=
  if source.isEmpty then .error (.failure "qualified wildcard requires a source name")
  else if d.sourceStars.contains source then .ok d
  else .ok { d with sourceStars := d.sourceStars ++ [source] }

def add (d : Draft) (declaration : Declaration) : Outcome Draft :=
  match declaration.item with
  | .column c => .ok (d.addField (.column c) declaration.hidden)
  | .computed e none => .ok (d.addUnnamed e declaration.hidden)
  | .computed e (some name) => .ok (d.addAlias name e declaration.hidden)
  | .star except replace => d.addStar except replace
  | .sourceStar source => d.addSourceStar source

/-- The expressions that the plan evaluates. -/
def expressions (d : Draft) : List Expr :=
  d.fields.filterMap (·.expr?) ++ (d.star.map (·.replace.map (·.expr))).getD []

/-- The plan without a layout. -/
def finish (d : Draft) : Plan :=
  { fields := d.fields
    star := d.star
    sourceStars := d.sourceStars
    aggregate := d.expressions.any Expr.containsAggregate
    layout := none }

end Draft

namespace Plan

/-- Compiles a SELECT list. -/
def compile (declarations : List Declaration) : Outcome Plan :=
  if declarations.isEmpty then .error (.failure "SELECT list is empty")
  else Draft.finish <$> declarations.foldlM Draft.add {}

/-- Compiles a SELECT list and lays it out over a schema if it qualifies. -/
def compileOver (schema : List String) (declarations : List Declaration) : Outcome Plan :=
  (fun p => { p with layout := Layout.ofPlan? p schema }) <$> compile declarations

end Plan
end StreamSelect
