import MixedProgram.Event
import MixedProgram.Number.Reader
import MixedProgram.Text.Pattern.Check
import MixedProgram.Text.Slice
import MixedProgram.Text.Split

/-! Directives: which level of urgency is shown for some of the targets.
A directive is a word, or a target with a span in brackets, with a field in braces, with a level behind
an equals sign, or with several of these in this order. -/
namespace MixedProgram.Logging

/-- Why a directive cannot be read. -/
inductive FilterError
  | malformed
  | unknownLevel
  | field (cause : Text.PatternError)
  deriving DecidableEq, Repr

def FilterError.message : FilterError → String
  | malformed => "invalid filter directive"
  | unknownLevel =>
    "error parsing level filter: expected one of \"off\", \"error\", \"warn\", \"info\", \"debug\", "
      ++ "\"trace\", or a number 0-5"
  | field cause => "invalid field filter: " ++ cause.message

/-- The least urgent level shown; `none` shows nothing. -/
abbrev Threshold := Option Level

def thresholdOfNumber? : Nat → Option Threshold
  | 0 => some none
  | 1 => some (some .error)
  | 2 => some (some .warn)
  | 3 => some (some .info)
  | 4 => some (some .debug)
  | 5 => some (some .trace)
  | _ => none

def thresholdOfWord? (word : String) : Option Threshold :=
  if Text.sameWord word "off" then some none
  else ([.error, .warn, .info, .debug, .trace].find? (Text.sameWord word ·.name)).map some

/-- A level word in any case, or its number. -/
def threshold? (text : String) : Option Threshold :=
  ((Number.readNat? text).bind thresholdOfNumber?).or (thresholdOfWord? text)

/-- A directive without a target holds for every target, and one without a field for every event. -/
structure Directive where
  target : Option String := none
  field : Option String := none
  threshold : Threshold
  deriving DecidableEq, Repr

namespace Directive

/-- A bare word is a level if it can be one, and otherwise a target shown in full. -/
def ofWord (word : String) : Directive :=
  match threshold? word with
  | some threshold => { threshold }
  | none => { target := some word, threshold := some .trace }

/-- What the first character of a directive may be. -/
def isStart (c : Char) : Bool :=
  Text.isAlphanumeric c || c == '-' || c == ':' || c == '_' || c == '['

/-- The level behind the equals sign; where there is none, everything is shown. -/
def readLevel (text : List Char) : Except FilterError Threshold :=
  if text.isEmpty then .ok (some .trace)
  else match threshold? (String.ofList text) with
    | some t => .ok t
    | none => .error .unknownLevel

/-- A field in braces: its name, and whether it asks for a value. -/
structure Field where
  name : List Char
  valued : Bool
  deriving DecidableEq, Repr

/-- The value behind the equals sign is a number or a pattern; a second equals sign ends it. -/
def Field.parse (text : List Char) : Except FilterError Field :=
  match Text.splitChars '=' text with
  | name :: value :: _ =>
    if (Number.readFloat? (String.ofList value)).isSome then .ok ⟨name, true⟩
    else match Text.Pattern.check value with
      | .ok () => .ok ⟨name, true⟩
      | .error cause => .error (.field cause)
  | _ => .ok ⟨text, false⟩

/-- What stands in brackets. -/
structure Scope where
  span : List Char
  field : Option Field
  deriving DecidableEq, Repr

/-- The part in brackets, from behind the opening bracket at the position `start`, with the position
and the text behind it. The field is read from `source`. -/
def readScope (source : List Char) (start : Nat) (cs : List Char) :
    Except FilterError (Scope × Nat × List Char) := do
  let span := cs.takeWhile fun c => c ≠ ']' && c ≠ '\x7b'
  let inside := start + Text.byteSize span + 1
  match cs.drop span.length with
  | ']' :: rest => return (⟨span, none⟩, inside, rest)
  | '\x7b' :: inner =>
    let field := inner.takeWhile (· ≠ '\x7d')
    let close := inside + Text.byteSize field
    match field, inner.drop field.length with
    | _ :: _, '\x7d' :: rest =>
      let field ← Field.parse (Text.between inside close source)
      match rest with
      | ']' :: rest => return (⟨span, some field⟩, close + 2, rest)
      | _ => throw .malformed
    | _, _ => throw .malformed
  | _ => throw .malformed

/-- What a directive with a scope shows outside of all spans. One that names a span or the value of a
field shows nothing there. -/
def ofScope (target : List Char) (scope : Scope) (threshold : Threshold) : Option Directive :=
  match scope with
  | ⟨[], some ⟨field, false⟩⟩ => some
      { target := if target.isEmpty then none else some (String.ofList target)
        field := some (String.ofList field)
        threshold }
  | _ => none

/-- A directive, as far as it holds outside of spans. Its parts are found in the text without the blanks
around it, and then read at the same positions of the text with the blanks. So blanks become part of a
word, and a level beside blanks cannot be read. -/
def parse (item : String) : Except FilterError (Option Directive) :=
  let source := item.toList
  let body := Text.trim source
  match body with
  | [] => .error .malformed
  | c :: _ =>
    if !isStart c then .error .malformed
    else
      let word := body.takeWhile fun c => c ≠ '=' && c ≠ '['
      let stop := Text.byteSize word
      let target := Text.takeBytes stop source
      match body.drop word.length with
      | [] => .ok (some (ofWord item))
      | '[' :: inner => do
        match ← readScope source (stop + 1) inner with
        | (scope, _, []) => return ofScope target scope (some .trace)
        | (scope, behind, '=' :: _) =>
          return ofScope target scope (← readLevel (Text.dropBytes (behind + 1) source))
        | _ => throw .malformed
      | _ :: _ => (readLevel (Text.dropBytes (stop + 1) source)).map fun t =>
          some { target := some (String.ofList target), threshold := t }

/-- Whether a directive holds for an event with the given target and fields. -/
def covers (d : Directive) (target : String) (fields : List String) : Bool :=
  d.target.all (fun start => start.toList.isPrefixOf target.toList) && d.field.all fields.contains

/-- How narrow the directive is: the length of its target comes first, and then whether it asks for a
field. -/
def reach (d : Directive) : Nat :=
  2 * (d.target.map String.length).getD 0 + (if d.field.isSome then 1 else 0)

/-- Whether two directives hold for the same events. -/
def sameScope (d e : Directive) : Bool := d.target == e.target && d.field == e.field

end Directive
end MixedProgram.Logging
