import EcmaScript.Character
import EcmaScript.Cursor
import EcmaScript.Token

/-!
Numeric literals. A character is needed after every literal, except after a binary one, to see that
no identifier is glued to it.
-/

namespace EcmaScript.Numeric

open Scan Character

def finish (src : Source) (start : Nat) (value : Number) : ScanM Token := do
  let here ← get
  pure
    { lexeme := .numeric value
      raw := some (src.slice start here.index)
      lineNumber := here.lineNumber
      lineStart := some here.lineStart
      start
      stop := here.index }

/-- A hexadecimal literal after its mark. -/
def hex (src : Source) (start : Nat) : ScanM Token := do
  let digits ← run src isHexDigit
  if digits = [] then throw .illegal
  else do
    if isIdentifierStart (← current src) then throw .illegal
    else finish src start (.integer (positional 16 digits))

/-- A binary literal after its mark. -/
def binary (src : Source) (start : Nat) : ScanM Token := do
  let digits ← run src isBinaryDigit
  if digits = [] then throw .illegal
  else
    match src[(← get).index]? with
    | some c =>
      if isIdentifierStart c || isDecimalDigit c then throw .illegal
      else finish src start (.integer (positional 2 digits))
    | none => finish src start (.integer (positional 2 digits))

/-- An octal literal after its zero. The character after the zero is a mark or, in the old form,
the first digit. -/
def octal (src : Source) (oldForm : Bool) (start : Nat) : ScanM Token := do
  let first ← if oldForm then (fun c => [c]) <$> next src else do skip 1; pure []
  let rest ← run src isOctalDigit
  let digits := first ++ rest
  if digits = [] then throw .illegal
  else do
    let c ← current src
    if isIdentifierStart c || isDecimalDigit c then throw .illegal
    else if digits.all isOctalDigit then finish src start (.integer (positional 8 digits))
    else throw .noNumber

/-- Whether the digits after the cursor make an octal number: no eight or nine stands before the
first character that is no octal digit. -/
def isOldOctal (src : Source) (index : Nat) : Bool :=
  let after := index + 1 + runLength src isOctalDigit (src.size - (index + 1)) (index + 1)
  match src[after]? with
  | some c => c ≠ 0x38 && c ≠ 0x39
  | none => true

/-- The digits after a decimal point. -/
def fraction (src : Source) : ScanM Text := do
  if (← current src) = 0x2E then do
    skip 1
    let digits ← run src isDecimalDigit
    let _ ← current src
    pure digits
  else pure []

/-- The value of an exponent part. -/
def exponent (src : Source) : ScanM Int := do
  let c ← current src
  if c = 0x65 || c = 0x45 then do
    skip 1
    let sign ← current src
    if sign = 0x2B || sign = 0x2D then skip 1 else pure ()
    let _ ← current src
    let digits ← run src isDecimalDigit
    if digits = [] then throw .illegal
    else do
      let size : Int := positional 10 digits
      pure (if sign = 0x2D then -size else size)
  else pure 0

/-- A decimal literal whose digits before the point have been taken. -/
def decimal (src : Source) (start : Nat) (whole : Text) : ScanM Token := do
  let part ← fraction src
  let power ← exponent src
  if isIdentifierStart (← current src) then throw .illegal
  else if whole ++ part = [] then throw .noNumber
  else
    finish src start (.double (Double.ofDecimal
      { digits := positional 10 (whole ++ part), exponent := power - part.length }))

/-- A literal that starts with a digit. -/
def fromDigit (src : Source) (start : Nat) (first : CodePoint) : ScanM Token := do
  let c ← current src
  if first = 0x30 && (c = 0x78 || c = 0x58) then do
    skip 1
    hex src start
  else if first = 0x30 && (c = 0x62 || c = 0x42) then do
    skip 1
    binary src start
  else if first = 0x30 && (c = 0x6F || c = 0x4F) then octal src false start
  else if first = 0x30 && isOctalDigit c && isOldOctal src (← get).index then octal src true start
  else do
    let rest ← run src isDecimalDigit
    let _ ← current src
    decimal src start (first :: rest)

def token (src : Source) : ScanM Token := do
  let start := (← get).index
  let c ← current src
  if c = 0x2E then decimal src start []
  else if isDecimalDigit c then do
    skip 1
    fromDigit src start c
  else throw .notNumeric

end EcmaScript.Numeric
