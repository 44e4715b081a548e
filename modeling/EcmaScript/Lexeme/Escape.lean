import EcmaScript.Character
import EcmaScript.Cursor

/-!
Escape sequences that denote a character by its number.
-/

namespace EcmaScript.Escape

open Scan Character

/-- Takes `count` more hexadecimal digits of a number whose digits so far denote `value`. -/
def hexDigits (src : Source) : Nat → Nat → ScanM (Option CodePoint)
  | 0, value => pure (some value)
  | count + 1, value => do
    match src[(← get).index]? with
    | none => pure none
    | some c =>
      if isHexDigit c then do
        skip 1
        hexDigits src count (value * 16 + digitValue c)
      else pure none

/-- Takes exactly `count` hexadecimal digits, if that many stand here; otherwise those that do stand
here are taken, and there is no value. -/
def hex (src : Source) (count : Nat) : ScanM (Option CodePoint) :=
  hexDigits src count 0

/-- The digits of a braced escape and its closing brace: the value, or nothing when something other
than a closing brace follows the digits. -/
def bracedDigits (src : Source) : ScanM (Option Nat) :=
  repeated src (fun value => do
    if ← atEnd src then pure (.inr none)
    else do
      let c ← next src
      if isHexDigit c then pure (.inl (value * 16 + digitValue c))
      else pure (.inr (if c = 0x7D then some value else none))) 0

/-- A code point escape after its opening brace, in UTF-16 form. -/
def braced (src : Source) : ScanM Text := do
  if (← current src) = 0x7D then throw .illegal
  else do
    match ← bracedDigits src with
    | some value => if value ≤ 0x10FFFF then pure (Text.utf16 value) else throw .illegal
    | none => throw .illegal

/-- The number of digits after the letter of a hexadecimal escape. -/
def width (letter : CodePoint) : Nat :=
  if letter = 0x75 then 4 else 2

/-- One more octal digit, if one stands here. -/
def octalDigit? (src : Source) : ScanM (Option Nat) := do
  match src[(← get).index]? with
  | some c =>
    if isOctalDigit c then do
      skip 1
      pure (some (digitValue c))
    else pure none
  | none => pure none

/-- An octal escape whose first digit has been taken: its value, and whether it is more than a
plain zero. A third digit belongs to it only if the first is at most three. -/
def octal (src : Source) (first : CodePoint) : ScanM (CodePoint × Bool) := do
  if isOctalDigit first then do
    match ← octalDigit? src with
    | none => pure (digitValue first, first ≠ 0x30)
    | some second =>
      let value := digitValue first * 8 + second
      if first ≤ 0x33 then do
        match ← octalDigit? src with
        | none => pure (value, true)
        | some third => pure (value * 8 + third, true)
      else pure (value, true)
  else throw .noNumber

end EcmaScript.Escape
