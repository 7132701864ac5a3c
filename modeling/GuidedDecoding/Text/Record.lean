/-!
# Values on one line

How values are written for diagnostics: records with the names of their fields, lists between brackets, and
values that may be absent.
-/

namespace GuidedDecoding.Text

def record (name : String) (fields : List (String × String)) : String :=
  let inner := ", ".intercalate (fields.map fun (field, value) => field ++ ": " ++ value)
  name ++ " \x7b " ++ inner ++ " \x7d"

def listed (values : List String) : String := "[" ++ ", ".intercalate values ++ "]"

def optional : Option String → String
  | some value => "Some(" ++ value ++ ")"
  | none => "None"

end GuidedDecoding.Text
