import StreamSelect.Function.Basic
import StreamSelect.Value.Order

/-!
The aggregate functions over the values that an argument takes on the rows of a group. Null counts
for nothing in all of them but `collect`. Removal of duplicates works on whole rows and stands
apart.
-/
namespace StreamSelect.AggregateFunction

def kindInFault (v : Value) : String := Text.lower v.kindName

/-- Adds a value to the sum so far. The function's name is for the fault. -/
def addTo (name : String) (total : Option Value) (v : Value) : Outcome (Option Value) :=
  if !v.isNumeric then
    .error (.aggregateMisuse name
      ("requires number but found " ++ kindInFault v ++ "(" ++ v.display ++ ")"))
  else
    match total with
    | none => .ok (some v)
    | some soFar =>
      match soFar.arithmetic .add v with
      | .ok grown => .ok (some grown)
      | .error fault => .error (.aggregateMisuse name fault.message)

def present (values : List Value) : List Value := values.filter fun v => !v.isNull

/-- The sum from the first value on, null if there is none. -/
def sumOf (name : String) (values : List Value) : Outcome Value := do
  let total ← (present values).foldlM (addTo name) none
  return total.getD .null

/-- The sum divided by the number of values. -/
def average (name : String) (values : List Value) : Outcome Value :=
  let count := (present values).length
  if count = 0 then .ok .null
  else do
    let total ← sumOf name values
    match total.arithmetic .divide (.integer (.ofNat count)) with
    | .ok v => .ok v
    | .error fault => .error (.aggregateMisuse name fault.message)

/-- The better of the best value so far and the next one; the earlier one if they are equal. -/
def better (name : String) (keep : Ordering) (best : Option Value) (v : Value) :
    Outcome (Option Value) :=
  match best with
  | none => .ok (some v)
  | some current =>
    match v.compare? current with
    | some ordering => .ok (some (if ordering = keep then v else current))
    | none => .error (.aggregateMisuse name
        ("cannot compare " ++ kindInFault current ++ " and " ++ kindInFault v))

/-- The first of the least values (`keep` is `lt`) or of the greatest (`gt`), null if there is
none. -/
def extreme (name : String) (keep : Ordering) (values : List Value) : Outcome Value := do
  let best ← (present values).foldlM (better name keep) none
  return best.getD .null

/-- The value over a column of values. `name` is the spelling of the call. -/
def apply (f : AggregateFunction) (name : String) (values : List Value) : Outcome Value :=
  match f with
  | .count => .ok (.integer (.ofNat (present values).length))
  | .sum => sumOf name values
  | .avg => average name values
  | .min => extreme name .lt values
  | .max => extreme name .gt values
  | .collect => .ok (.array values)
  | .deduplicate => .error (.unknownFunction name)

/-- The value of the aggregate function called `name` over a column of values. -/
def call (name : String) (values : List Value) : Outcome Value :=
  match Function.ofName? name with
  | some (.aggregate f) => f.apply name values
  | _ => .error (.unknownFunction name)

/-- The rows whose key is not null and differs from the keys seen before them. -/
def firstPerKey (seen : List Value) : List (Value × FieldMap) → List FieldMap
  | [] => []
  | (key, fields) :: rest =>
    if key.isNull || seen.any (·.same key) then firstPerKey seen rest
    else fields :: firstPerKey (seen ++ [key]) rest

/-- The last row, if its key is not null and no earlier row has it. -/
def latestIfNew (rows : List (Value × FieldMap)) : Option FieldMap :=
  match rows.getLast? with
  | none => none
  | some (key, fields) =>
    if key.isNull || rows.dropLast.any (·.1.same key) then none else some fields

/-- The first row for each key, or the last row if its key is new. Rows come with their keys. -/
def deduplicated (rows : List (Value × FieldMap)) (all : Bool) : Value :=
  if all then .array ((firstPerKey [] rows).map Value.ofFields)
  else ((latestIfNew rows).map Value.ofFields).getD .null

end StreamSelect.AggregateFunction
