/-! The text of an error: a stable code in brackets and a sentence. -/
namespace MixedProgram

def diagnostic (code detail : String) : String := "[" ++ code ++ "] " ++ detail

end MixedProgram
