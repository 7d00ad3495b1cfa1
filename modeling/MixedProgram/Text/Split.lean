/-! Words of a separated list, and words compared without regard to ASCII case. -/
namespace MixedProgram.Text

/-- The parts between separators; a text without separators is its only part. -/
def splitChars (sep : Char) : List Char → List (List Char)
  | [] => [[]]
  | c :: cs =>
    if c = sep then [] :: splitChars sep cs
    else match splitChars sep cs with
      | [] => [[c]]
      | part :: parts => (c :: part) :: parts

def split (sep : Char) (s : String) : List String :=
  (splitChars sep s.toList).map String.ofList

/-- Letters of other scripts are compared as they are. -/
def sameWord (s t : String) : Bool := s.toLower == t.toLower

end MixedProgram.Text
