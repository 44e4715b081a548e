import EcmaScript.Lexeme.RegExp
import EcmaScript.Lexeme.StringLiteral

/-!
Patterns of regular expressions in a plainer dialect: hexadecimal escapes become the characters they
denote, the escapes for blanks are spelled out as classes, and a backslash before a character that
has no special meaning is dropped.
-/

namespace EcmaScript.RegExp

open Scan Character

/-- The members of the class of blanks. -/
def blanks : Text :=
  [0x20, 0x0C, 0x0A, 0x0D, 0x09, 0x0B, 0xA0, 0x1680, 0x180E, 0x2000, 0x2D, 0x200A, 0x2028, 0x2029,
   0x202F, 0x205F, 0x3000, 0xFEFF]

/-- The members of the class of all else, as ranges. -/
def nonBlanks : Text :=
  [0x00, 0x2D, 0x08, 0x0E, 0x2D, 0x1F, 0x21, 0x2D, 0x9F, 0xA1, 0x2D, 0x167F, 0x1681, 0x2D, 0x180D,
   0x180F, 0x2D, 0x1FFF, 0x200B, 0x2D, 0x2027, 0x202A, 0x2D, 0x202E, 0x2030, 0x2D, 0x205E, 0x2060,
   0x2D, 0x2FFF, 0x3001, 0x2D, 0xFEFE, 0xFF00, 0x2D, 0xFFFF]

/-- The characters that keep their backslash: the letters of control and class escapes, the zero,
and the marks with a special meaning. -/
def keptEscapes : Text :=
  Text.ofString "0nrtfv\\^$*+?.[]()\x7b|-bBwWdD"

/-- Members of a class, in brackets unless they stand in a class already. -/
def asClass (inClass : Bool) (members : Text) : Text :=
  if inClass then members else 0x5B :: members ++ [0x5D]

/-- A hexadecimal escape after its letter, which stands for itself unless all digits follow. -/
def hexEscape (src : Source) (inClass : Bool) (letter : CodePoint) : ScanM Text := do
  let index := (← get).index
  let width := Escape.width letter
  let digits := src.slice index (index + width)
  if digits.length = width && digits.all isHexDigit then do
    skip width
    pure (asClass inClass [positional 16 digits])
  else pure [letter]

/-- An escape after its backslash. -/
def expandEscape (src : Source) (inClass : Bool) : ScanM Text := do
  let c ← next src
  if isLineTerminator c then do
    StringLiteral.continuation src c
    pure []
  else if c = 0x75 || c = 0x78 then hexEscape src inClass c
  else if keptEscapes.contains c then pure [0x5C, c]
  else if c = 0x73 then pure (asClass inClass blanks)
  else if c = 0x53 then pure (asClass inClass nonBlanks)
  else if isDecimalDigit c then do
    let digits ← run src isDecimalDigit
    pure (0x5C :: c :: digits)
  else pure [c]

/-- The whole source as a pattern of the plainer dialect. -/
def expand (src : Source) : ScanM Text :=
  repeated src (fun (text, inClass) => do
    if ← atEnd src then pure (.inr text)
    else do
      let c ← next src
      if c = 0x5C then do
        let part ← expandEscape src inClass
        pure (.inl (text ++ part, inClass))
      else if c = 0x5B then pure (.inl (text ++ [c], true))
      else if c = 0x5D then pure (.inl (text ++ [c], false))
      else pure (.inl (text ++ [c], inClass))) ([], false)

end EcmaScript.RegExp
