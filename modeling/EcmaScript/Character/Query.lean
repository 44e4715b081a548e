import EcmaScript.Fault
import EcmaScript.Keyword
import EcmaScript.Value

/-!
Questions about characters and words that are given as attribute values: a character is a text of
length one or the number of a code point.
-/

namespace EcmaScript.Character

/-- The number that a value denotes. -/
def number? : Value → Option Int
  | .int n => some n
  | .bool b => some (if b then 1 else 0)
  | _ => none

/-- The code point with the given number. -/
def ofNumber (n : Int) : Except Fault CodePoint :=
  if n < -0x80000000 || 0x7FFFFFFF < n then .error .overflow
  else if n < 0 || 0x10FFFF < n then .error .badValue
  else .ok n.toNat

/-- The text that a value denotes: itself, or the character with that number. -/
def textOf : Value → Except Fault Text
  | .text t => .ok t
  | value =>
    match number? value with
    | some n => (fun c => [c]) <$> ofNumber n
    | none => .error .wrongType

/-- Asks about the one character that a value denotes. -/
def queryOne (test : CodePoint → Bool) (value : Value) : Except Fault Bool := do
  match ← textOf value with
  | [c] => pure (test c)
  | _ => throw .wrongType

/-- Asks about a digit; a text of another length is none. -/
def queryDigit (test : CodePoint → Bool) (value : Value) : Except Fault Bool := do
  match ← textOf value with
  | [c] => pure (test c)
  | _ => pure false

/-- Asks about a number; a character stands for its code point. -/
def queryCode (test : CodePoint → Bool) : Value → Except Fault Bool
  | .text [c] => .ok (test c)
  | .text _ | .list _ | .record _ => .error .wrongType
  | value =>
    match number? value with
    | some n => .ok (decide (0 ≤ n) && test n.toNat)
    | none => .ok false

/-- Asks about a word; nothing else is one. -/
def queryWord (test : Text → Bool) : Value → Except Fault Bool
  | .text t => .ok (test t)
  | _ => .ok false

/-- Asks about a member of a set of words, which a list or record cannot be. -/
def queryMember (test : Text → Bool) : Value → Except Fault Bool
  | .text t => .ok (test t)
  | .list _ | .record _ => .error .wrongType
  | _ => .ok false

/-- Asks about a name; whatever is empty is none. -/
def queryName (test : Text → Bool) (value : Value) : Except Fault Bool :=
  match value with
  | .text t => .ok (test t)
  | _ => if value.isPresent then .error .wrongType else .ok false

end EcmaScript.Character
