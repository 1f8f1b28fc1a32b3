import StreamSelect.Policy.Basic

/-!
Overrides of a policy by environment variables. A variable that is set must hold a flag: `true`,
`false`, `1` or `0`, in any case of letters and with blanks around it.
-/
namespace StreamSelect.OutputPolicy

def metadataVariable : String := "VELOSTREAM_PROJECTION_SEND_META"

def nullsVariable : String := "VELOSTREAM_PROJECTION_SEND_NIL"

def flag? (text : String) : Option Bool :=
  let word := String.ofList ((Text.trim text).toList.map Char.toLower)
  if word = "true" ∨ word = "1" then some true
  else if word = "false" ∨ word = "0" then some false
  else none

/-- The flag that a variable overrides a setting with; the setting itself if it is not set. -/
def overriding (name : String) (value? : Option String) (setting : Bool) : Outcome Bool :=
  match value? with
  | none => .ok setting
  | some text =>
    match flag? text with
    | some flag => .ok flag
    | none => .error (.configuration
        (name ++ " must be one of true, false, 1, 0 (got '" ++ text ++ "')"))

/-- The policy under the values of the two variables. The metadata variable is read first. -/
def overridden (policy : OutputPolicy) (metadata? nulls? : Option String) :
    Outcome OutputPolicy := do
  let attachMetadata ← overriding metadataVariable metadata? policy.attachMetadata
  let writeNulls ← overriding nullsVariable nulls? policy.writeNulls
  return { attachMetadata, writeNulls }

end StreamSelect.OutputPolicy
