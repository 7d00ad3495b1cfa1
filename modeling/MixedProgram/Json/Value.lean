/-! JSON values. Whole numbers and binary numbers are told apart, as they are in JSON text. -/
namespace MixedProgram

inductive Json
  | null
  | bool (b : Bool)
  | int (n : Int)
  | float (x : Float)
  | string (s : String)
  | array (items : List Json)
  | object (fields : List (String × Json))
  deriving Inhabited

namespace Json

/-- The value of a field; none when the value is no object or has no such field. -/
def field? (j : Json) (name : String) : Option Json :=
  match j with
  | object fields => (fields.find? (·.1 == name)).map (·.2)
  | _ => none

/-- Enters a field into fields sorted by name; a later value replaces an earlier one. -/
def insertField (name : String) (value : Json) : List (String × Json) → List (String × Json)
  | [] => [(name, value)]
  | (n, v) :: rest =>
    match compare name n with
    | .lt => (name, value) :: (n, v) :: rest
    | .eq => (name, value) :: rest
    | .gt => (n, v) :: insertField name value rest

/-- An object with its fields sorted by name, the last of equal names kept. -/
def sortedObject (fields : List (String × Json)) : Json :=
  object (fields.foldl (fun acc f => insertField f.1 f.2 acc) [])

end Json
end MixedProgram
