import EcmaScript.Lexeme.Escape
import EcmaScript.Token

/-!
String literals and their escapes.
-/

namespace EcmaScript.StringLiteral

open Scan Character

/-- The control character that a letter denotes after a backslash. -/
def control? (letter : CodePoint) : Option CodePoint :=
  if letter = 0x6E then some 0x0A
  else if letter = 0x72 then some 0x0D
  else if letter = 0x74 then some 0x09
  else if letter = 0x62 then some 0x08
  else if letter = 0x66 then some 0x0C
  else if letter = 0x76 then some 0x0B
  else none

/-- The line terminator of a continued line, whose first character has been taken. -/
def continuation (src : Source) (terminator : CodePoint) : ScanM Unit := do
  countLine
  completeBreak src terminator
  startLine

/-- An escape after its backslash: the text it denotes, and whether it is an octal one. A braced
code point may follow either letter of the hexadecimal escapes. -/
def escape (src : Source) : ScanM (Text × Bool) := do
  let c ← next src
  if isLineTerminator c then do
    continuation src c
    pure ([], false)
  else if c = 0x75 || c = 0x78 then do
    if (← current src) = 0x7B then do
      skip 1
      let denoted ← Escape.braced src
      pure (denoted, false)
    else do
      match ← Escape.hex src (Escape.width c) with
      | some denoted => pure ([denoted], false)
      | none => throw .illegal
  else
    match control? c with
    | some denoted => pure ([denoted], false)
    | none =>
      if isOctalDigit c then do
        let (denoted, octal) ← Escape.octal src c
        pure ([denoted], octal)
      else pure ([c], false)

/-- The characters up to the closing quote, which is taken too: the text they denote, and whether
one of them is an octal escape. -/
def body (src : Source) (quote : CodePoint) : ScanM (Text × Bool) :=
  repeated src (fun (value, octal) => do
    if ← atEnd src then throw .illegal
    else do
      let c ← next src
      if c = quote then pure (.inr (value, octal))
      else if c = 0x5C then do
        let (denoted, isOctal) ← escape src
        pure (.inl (value ++ denoted, isOctal || octal))
      else if isLineTerminator c then throw .illegal
      else pure (.inl (value ++ [c], octal))) ([], false)

/-- The string literal at the cursor. Its line is the one it ends on, but the line start given with
it is that of the line it starts on. -/
def token (src : Source) (lineStart : Option Nat) : ScanM Token := do
  let start := (← get).index
  let quote ← current src
  if quote = 0x27 || quote = 0x22 then do
    skip 1
    let (value, octal) ← body src quote
    let here ← get
    pure
      { lexeme := .string value octal
        raw := some (src.slice start here.index)
        lineNumber := here.lineNumber
        lineStart
        start
        stop := here.index }
  else throw .notString

end EcmaScript.StringLiteral
