import EcmaScript.Lexeme.Escape
import EcmaScript.Token

/-!
Identifiers, keywords and the literals spelled as words. Characters of a name may be written as
Unicode escapes; a name without them is read in one run.
-/

namespace EcmaScript.Name

open Scan Character

/-- An escape inside a name, after its backslash. The character must be one that passes the test,
and not a backslash itself. -/
def escape (src : Source) (allowed : CodePoint → Bool) : ScanM CodePoint := do
  if (← current src) = 0x75 then do
    skip 1
    match ← Escape.hex src 4 with
    | some c => if c = 0x5C || !allowed c then throw .illegal else pure c
    | none => throw .illegal
  else throw .illegal

/-- The name at the cursor, whatever its first character is, with its escapes resolved. -/
def escaped (src : Source) : ScanM Text := do
  let c ← next src
  let first ← if c = 0x5C then escape src isIdentifierStart else pure c
  repeated src (fun name => do
    if ← atEnd src then pure (.inr name)
    else do
      let c ← current src
      if isIdentifierPart c then do
        skip 1
        let c ← if c = 0x5C then escape src isIdentifierPart else pure c
        pure (.inl (name ++ [c]))
      else pure (.inr name)) [first]

/-- The name at the cursor, whatever its first character is. A backslash after it sends the reader
back to resolve escapes. -/
def plain (src : Source) : ScanM Text := do
  let start := (← get).index
  skip 1
  let _ ← run src fun c => isIdentifierPart c && c != 0x5C
  if src[(← get).index]? = some 0x5C then do
    moveTo start
    escaped src
  else return src.slice start (← get).index

def token (src : Source) : ScanM Token := do
  let start := (← get).index
  let name ← if (← current src) = 0x5C then escaped src else plain src
  let here ← get
  pure
    { lexeme := Lexeme.ofName name
      raw := some (src.slice start here.index)
      lineNumber := here.lineNumber
      lineStart := some here.lineStart
      start
      stop := here.index }

end EcmaScript.Name
