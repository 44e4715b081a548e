import EcmaScript.Cursor
import EcmaScript.Token

/-!
Punctuators as tokens. Braces are counted as they are read, so that the brace that ends a template
substitution can be told from one that ends a block.
-/

namespace EcmaScript.Mark

open Scan

/-- The punctuator at the cursor; the longest one wins. -/
def punctuator (src : Source) : ScanM Punctuator := do
  let _ ← current src
  let index := (← get).index
  match Punctuator.longest? (src.slice index (index + 4)) with
  | none => throw .illegal
  | some .openBrace => do
    openBrace .block
    skip 1
    pure .openBrace
  | some .closeBrace => do
    skip 1
    closeBrace
    pure .closeBrace
  | some mark => do
    skip mark.text.length
    pure mark

def token (src : Source) : ScanM Token := do
  let start ← get
  let mark ← punctuator src
  pure
    { lexeme := .punctuator mark
      lineNumber := start.lineNumber
      lineStart := some start.lineStart
      start := start.index
      stop := (← get).index }

end EcmaScript.Mark
