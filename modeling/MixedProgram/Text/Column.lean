/-! Columns of text. Widths count characters, and longer texts are never cut. -/
namespace MixedProgram.Text

def blanks (n : Nat) : String := String.ofList (List.replicate n ' ')

def padLeft (width : Nat) (s : String) : String := blanks (width - s.length) ++ s
def padRight (width : Nat) (s : String) : String := s ++ blanks (width - s.length)

end MixedProgram.Text
