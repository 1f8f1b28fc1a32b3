import StreamSelect.Expr.Text
import StreamSelect.Function.Aggregate
import StreamSelect.Function.Scalar
import StreamSelect.Row
import StreamSelect.Value.Path

/-!
Evaluation of expressions against one row or against the rows of a group. Aggregate calls run over
all rows; everything else reads the first row. A field that is not there is null; a link to an
alias gives the stored value, or evaluates what the alias stands for if none is stored.
-/
namespace StreamSelect

/-- What an expression is evaluated against. -/
inductive Subject
  | row (row : Row)
  | group (rows : List Row)

namespace Subject

def first? : Subject → Option Row
  | .row r => some r
  | .group rs => rs.head?

/-- The rows that an aggregate runs over; a single row is a group of one. -/
def rows : Subject → List Row
  | .row r => [r]
  | .group rs => rs

end Subject

/-- The values of aliases stored so far and the window of the row, if it has one. -/
structure Scope where
  aliases : FieldMap := ∅
  window : Option Window := none

/-- The value of a column, null if the row lacks it or there is no row. -/
def Column.valueIn (c : Column) (row? : Option Row) : Value :=
  (row?.bind (·.field? c.source c.name)).getD .null

def Literal.value : Literal → Outcome Value
  | .null => .ok .null
  | .boolean b => .ok (.boolean b)
  | .integer i => .ok (.integer i)
  | .float x => .ok (.float x)
  | .text s => .ok (.text s)
  | .decimal written =>
    match Decimal.parse written with
    | .ok d => .ok (.decimal d)
    | .error malformed => .error (.failure
        ("Invalid decimal literal '" ++ written ++ "': " ++ malformed.message))

/-- Whether an ordering satisfies a comparison. -/
def Relation.holds : Relation → Ordering → Bool
  | .equal, o => o == .eq
  | .notEqual, o => o != .eq
  | .less, o => o == .lt
  | .lessOrEqual, o => o != .gt
  | .greater, o => o == .gt
  | .greaterOrEqual, o => o != .lt

/-- A comparison of two values that are not null. Equality takes any two values. -/
def Relation.compare (op : Relation) (a b : Value) : Outcome Value :=
  match op with
  | .equal => .ok (.boolean (a.equals b))
  | .notEqual => .ok (.boolean (!a.equals b))
  | _ =>
    match a.compare? b with
    | some ordering => .ok (.boolean (op.holds ordering))
    | none => .error (Value.invalidOperation a b op.symbol)

/-- The truth of the left operand that decides the result alone. -/
def Connective.deciding : Connective → Bool
  | .and => false
  | .or => true

/-- An operator on two values; of logical operators the part after the left operand was not
decisive. -/
def BinaryOp.apply (op : BinaryOp) (a b : Value) : Outcome Value :=
  match op with
  | .arithmetic op => a.arithmetic op b
  | .relation op => if a.isNull || b.isNull then .ok .null else op.compare a b
  | .concat => if a.isNull || b.isNull then .ok .null else .ok (.text (a.display ++ b.display))
  | .connective _ => Value.boolean <$> b.truth

/-- The result, if the left operand decides it alone. -/
def BinaryOp.decided? (op : BinaryOp) (a : Value) : Outcome (Option Value) :=
  match op with
  | .connective op => do
    let truth ← a.truth
    return if truth = op.deciding then some (.boolean truth) else none
  | _ => .ok none

def UnaryOp.applyTo (op : UnaryOp) (v : Value) : Outcome Value :=
  match op with
  | .isNull => .ok (.boolean v.isNull)
  | .isNotNull => .ok (.boolean (!v.isNull))
  | .not => if v.isNull then .ok .null else (fun b => .boolean !b) <$> v.truth
  | .negate => v.negate

/-- Whether the condition of a case distinction holds: as a truth, or as equal to the operand. -/
def conditionHolds (operand : Option Value) (condition : Value) : Outcome Bool :=
  match operand with
  | some v => .ok (v.equals condition)
  | none => condition.truth

/-- The value of a metadata call, whose argument is a key as it is written and not evaluated. -/
def metadataValue (args : List Expr) (row? : Option Row) : Outcome Value :=
  match args with
  | [.column c] => .ok ((row?.bind (·.meta? c.source c.name)).getD .null)
  | [.star _ _] => .ok (.ofFields ((row?.bind Row.metadata?).getD ∅))
  | _ => .error (.failure "META requires a single metadata key or *")

/-- The value of a window call: the start if it is named so in ASCII letters, else the end. -/
def windowValue (name : String) (window : Option Window) : Value :=
  match window with
  | none => .null
  | some w =>
    .integer (if Text.sameIgnoringCase name "window_start" then w.start.millis else w.stop.millis)

/-- The flag that chooses between the two ways of removing duplicates. -/
def everyKeyFlag : Value → Outcome Bool
  | .boolean b => .ok b
  | v => .error (.aggregateMisuse "deduplicate" ("second argument must be bool but found " ++
      AggregateFunction.kindInFault v ++ "(" ++ v.display ++ ")"))

namespace Expr

mutual

def evaluate (e : Expr) (subject : Subject) (scope : Scope) : Outcome Value :=
  match e with
  | .column c => .ok (c.valueIn subject.first?)
  | .aliasRef name body =>
    match scope.aliases.get? name with
    | some v => .ok v
    | none => evaluate body subject scope
  | .literal l => l.value
  | .binary op left right => do
    let a ← evaluate left subject scope
    match ← op.decided? a with
    | some v => return v
    | none => op.apply a (← evaluate right subject scope)
  | .unary op operand => do op.applyTo (← evaluate operand subject scope)
  | .call function args =>
    match Function.ofName? function with
    | none => .error (.unknownFunction function)
    | some (.aggregate f) =>
      if Text.sameIgnoringCase function "deduplicate" then
        match args with
        | [key, all] => do
          let flag ← everyKeyFlag (← evaluate all subject scope)
          let keyed ← subject.rows.mapM fun row => do
            return (← evaluate key (.row row) scope, row.allFields)
          return AggregateFunction.deduplicated keyed flag
        | _ => .error (.aggregateMisuse "deduplicate"
            ("expects two arguments but found " ++ toString args.length))
      else
        match args with
        | [arg] => do
          f.apply function (← subject.rows.mapM fun row => evaluate arg (.row row) scope)
        | _ => .error (.aggregateMisuse function
            ("expects exactly one argument but found " ++ toString args.length))
    | some .windowBoundary => .ok (windowValue function scope.window)
    | some .metadata => metadataValue args subject.first?
    | some (.scalar f) => do f.apply (← evaluateAll args subject scope)
  | .case operand branches otherwise => do
    let operand ← evaluateOption operand subject scope
    match ← evaluateBranches operand branches subject scope with
    | some v => return v
    | none => return (← evaluateOption otherwise subject scope).getD .null
  | .member base key => do (← evaluate base subject scope).atKey key
  | .element base position => do (← evaluate base subject scope).atIndex position
  | .slice base start stop => do (← evaluate base subject scope).slice start stop
  | .star except replace => do
    let fields := ((subject.first?.map Row.allFields).getD ∅).filterKeys (!except.contains ·)
    return .ofFields (← evaluateReplacements fields replace subject scope)

/-- The values of all expressions, or the fault of the first that fails. -/
def evaluateAll (es : List Expr) (subject : Subject) (scope : Scope) : Outcome (List Value) :=
  match es with
  | [] => .ok []
  | e :: rest => do return (← evaluate e subject scope) :: (← evaluateAll rest subject scope)

def evaluateOption (e? : Option Expr) (subject : Subject) (scope : Scope) :
    Outcome (Option Value) :=
  match e? with
  | none => .ok none
  | some e => some <$> evaluate e subject scope

/-- The result of the first branch whose condition holds, if there is one. -/
def evaluateBranches (operand : Option Value) (branches : List (Expr × Expr)) (subject : Subject)
    (scope : Scope) : Outcome (Option Value) :=
  match branches with
  | [] => .ok none
  | (condition, result) :: rest => do
    if ← conditionHolds operand (← evaluate condition subject scope) then
      some <$> evaluate result subject scope
    else evaluateBranches operand rest subject scope

/-- The fields with the replacements put in one after the other. -/
def evaluateReplacements (fields : FieldMap) (replace : List (Expr × String)) (subject : Subject)
    (scope : Scope) : Outcome FieldMap :=
  match replace with
  | [] => .ok fields
  | (e, name) :: rest => do
    evaluateReplacements (fields.insert name (← evaluate e subject scope)) rest subject scope

end

end Expr
end StreamSelect
