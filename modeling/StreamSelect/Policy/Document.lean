import StreamSelect.Document.Mapping
import StreamSelect.Policy.Basic

/-!
Policies written as a YAML document: a mapping of `send_meta` and `send_nil` to booleans. A setting
that is not given is off. Quotes, tags and anchors of keys play no part; a boolean is plain or a
literal block with the tag of booleans.
-/
namespace StreamSelect

/-- The two settings of a policy. -/
inductive Setting
  | attachMetadata
  | writeNulls
  deriving DecidableEq, Repr

namespace Setting

def ofName? (name : List Char) : Option Setting :=
  if name = "send_meta".toList then some .attachMetadata
  else if name = "send_nil".toList then some .writeNulls
  else none

end Setting

namespace Document

/-- The boolean of a word. -/
def Scalar.flag? (s : Scalar) : Option Bool :=
  if s.style = .plain ∨ (s.style = .literal ∧ s.tag = some boolTag) then
    if ["true".toList, "True".toList, "TRUE".toList].contains s.text then some true
    else if ["false".toList, "False".toList, "FALSE".toList].contains s.text then some false
    else none
  else none

/-- The settings of a mapping, in its order. No setting may be given twice. -/
def settings? : List Entry → Option (List (Setting × Bool))
  | [] => some []
  | entry :: entries => do
    let setting ← Setting.ofName? entry.key.text
    let flag ← entry.value.flag?
    let others ← settings? entries
    if (others.lookup setting).isSome then none else some ((setting, flag) :: others)

end Document

namespace OutputPolicy

def ofSettings (settings : List (Setting × Bool)) : OutputPolicy :=
  { attachMetadata := (settings.lookup .attachMetadata).getD false
    writeNulls := (settings.lookup .writeNulls).getD false }

/-- The policy that a document describes. -/
def ofDocument (text : String) : Outcome OutputPolicy :=
  match (Document.entries? text).bind Document.settings? with
  | some settings => .ok (ofSettings settings)
  | none => .error (.configuration "Invalid projection config")

/-- The policy that a file describes; `none` stands for a file that cannot be read. -/
def ofFile (content : Option String) : Outcome OutputPolicy :=
  match content with
  | some text => ofDocument text
  | none => .error (.configuration "Failed to read config file")

end OutputPolicy
end StreamSelect
