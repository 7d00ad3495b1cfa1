import MixedProgram.Logging.Directive

/-! Log filters: which events of which targets are shown.
A filter is a list of directives separated by commas. Each one holds for the targets that begin with
its own, and of several the narrowest decides. -/
namespace MixedProgram.Logging

abbrev Filter := List Directive

namespace Filter

/-- A later directive replaces an earlier one for the same events. -/
def enter (f : Filter) (d : Directive) : Filter := f.filter (!d.sameScope ·) ++ [d]

def nothing : Filter := [{ threshold := none }]

/-- A filter without directives shows errors. -/
def ofDirectives : List (Option Directive) → Filter
  | [] => [{ threshold := some .error }]
  | ds => ds.reduceOption.foldl enter []

/-- Empty items are passed over; the first item that cannot be read spoils the whole filter. -/
def parse (text : String) : Except FilterError Filter :=
  (((Text.split ',' text).filter (!·.isEmpty)).mapM Directive.parse).map ofDirectives

/-- The narrowest of the directives that cover an event. Of two for different fields it is the one
whose field comes later in the alphabet. -/
def deciding? (f : Filter) (target : String) (fields : List String) : Option Directive :=
  (f.filter (·.covers target fields)).foldl
    (fun best d => match best with
      | none => some d
      | some b =>
        if b.reach < d.reach || (b.reach = d.reach && b.field.getD "" < d.field.getD "") then some d
        else some b) none

/-- Whether an event is shown; where no directive covers it, it is not. -/
def enables (f : Filter) (level : Level) (target : String) (fields : List String) : Bool :=
  match (f.deciding? target fields).bind (·.threshold) with
  | some most => level.verbosity ≤ most.verbosity
  | none => false

end Filter
end MixedProgram.Logging
