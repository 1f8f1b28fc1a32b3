import StreamSelect.Expr.Text
import StreamSelect.Fault

/-!
The output policy of a projection: whether metadata are attached, and whether absent values are
written as null or left out.
-/
namespace StreamSelect

structure OutputPolicy where
  /-- Write the metadata of the input row as a field. -/
  attachMetadata : Bool := false
  /-- Write null for an absent value instead of leaving it out. -/
  writeNulls : Bool := false
  deriving DecidableEq, Repr, Inhabited

namespace OutputPolicy

/-- The result of evaluating a field: its value, nothing if it is to be left out, or a fault that
names the field. Only missing data is left out, and only if nulls are not written. -/
def settle (policy : OutputPolicy) (label : Option String) (e : Expr) (result : Outcome Value) :
    Outcome (Option Value) :=
  match result with
  | .ok v => .ok (some v)
  | .error fault =>
    if fault.isMissingData && !policy.writeNulls then .ok none
    else .error (.field label e.render fault)

/-- Writes a value under a name. A null that is not to be written removes what was there. -/
def write (policy : OutputPolicy) (fields : FieldMap) (name : String) (v : Value) : FieldMap :=
  if v.isNull && !policy.writeNulls then fields.erase name else fields.insert name v

end OutputPolicy
end StreamSelect
