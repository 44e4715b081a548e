import EcmaScript.Message

/-!
Why an operation fails. A scanner knows only what is wrong at its place; a parser adds the line and
the wording, and has causes of its own.
-/

namespace EcmaScript

/-- Why no token could be read. -/
inductive ScanFault where
  /-- The characters at this place start no token. -/
  | illegal
  | unterminatedRegExp
  | templateOctal
  /-- A character was needed after the last one of the source. -/
  | pastEnd
  /-- A closing brace has no open brace to close. -/
  | noOpenBrace
  /-- The stack of open braces does not exist before a source is loaded. -/
  | noContext
  | notNumeric
  | notString
  | notRegExp
  /-- The characters that were read denote no number. -/
  | noNumber
  /-- The bound on the number of rounds was too small. -/
  | exhausted
  deriving DecidableEq, Repr

inductive Fault where
  /-- The program is malformed, at this line. -/
  | malformed (line : Option Nat) (complaint : Text)
  /-- The program uses a feature outside ECMAScript 5.1. -/
  | unsupported (feature : Text)
  /-- Parsing takes no options. -/
  | optionsGiven
  /-- A precondition with this description does not hold. -/
  | precondition (text : Text)
  /-- An operation gives up with this explanation. -/
  | refused (text : Text)
  | pastEnd
  | noOpenBrace
  | emptyStack
  | noSource
  | noContext
  | noLookahead
  | noPosition
  | noNumber
  | missingKey
  | missingAttribute
  | wrongType
  | badValue
  | overflow
  | exhausted
  deriving DecidableEq, Repr

namespace Fault

def unsupportedText (feature : Text) : Text :=
  feature ++ Text.ofString " is not supported by ECMA 5.1."

/-- The text that reports a fault, for the faults that have one. -/
def message? : Fault → Option Text
  | malformed line complaint =>
    let number := match line with
      | some n => Text.ofNat n
      | none => Text.ofString "None"
    some (Text.ofString "Line " ++ number ++ Text.ofString ": " ++ complaint)
  | unsupported feature => some (unsupportedText feature)
  | optionsGiven =>
    some (Text.ofString "Options not implemented! You can only use default settings.")
  | precondition text => some text
  | refused text => some text
  | _ => none

end Fault

end EcmaScript
