import EcmaScript.Lexeme.Mark
import EcmaScript.Lexeme.Name
import EcmaScript.Lexeme.Numeric
import EcmaScript.Lexeme.Template

/-!
The token at the cursor, chosen by its first character. A slash is always a punctuator here: whether
it starts a regular expression only the grammar knows.
-/

namespace EcmaScript.Lexer

open Scan Character

def endToken : ScanM Token := do
  let here ← get
  pure
    { lexeme := .endOfSource
      lineNumber := here.lineNumber
      lineStart := some here.lineStart
      start := here.index
      stop := here.index }

/-- A closing brace goes on with a template when the innermost open brace is a substitution's. -/
def resumesTemplate : ScanM Bool := do
  match (← get).braces with
  | none => throw .noContext
  | some braces =>
    match braces.getLast? with
    | none => throw .noOpenBrace
    | some brace => pure (brace = .substitution)

def nameToken (src : Source) (strict : Bool) : ScanM Token := do
  let token ← Name.token src
  pure (if strict then { token with lexeme := token.lexeme.inStrictCode } else token)

/-- The token at the cursor. `lineStart` is where the line of a string literal starts. -/
def token (src : Source) (strict : Bool) (lineStart : Option Nat) : ScanM Token := do
  if ← atEnd src then endToken
  else do
    let c ← current src
    if isIdentifierStart c then nameToken src strict
    else if c = 0x28 || c = 0x29 || c = 0x3B then Mark.token src
    else if c = 0x27 || c = 0x22 then StringLiteral.token src lineStart
    else if c = 0x2E then do
      if isDecimalDigit (← ahead src 1) then Numeric.token src else Mark.token src
    else if isDecimalDigit c then Numeric.token src
    else if c = 0x60 then Template.token src
    else if c = 0x7D then do
      if ← resumesTemplate then Template.token src else Mark.token src
    else Mark.token src

end EcmaScript.Lexer
