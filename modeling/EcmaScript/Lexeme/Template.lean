import EcmaScript.Lexeme.StringLiteral

/-!
Pieces of template literals: from the opening quote or a closing brace to the next substitution or
the closing quote.
-/

namespace EcmaScript.Template

open Scan Character

/-- An escape after its backslash. A hexadecimal escape with too few digits stands for its letter,
and octal escapes other than a plain zero are refused. -/
def escape (src : Source) : ScanM Text := do
  let c ← next src
  if isLineTerminator c then do
    StringLiteral.continuation src c
    pure []
  else if c = 0x75 || c = 0x78 then do
    if (← current src) = 0x7B then do
      skip 1
      Escape.braced src
    else do
      let restore := (← get).index
      match ← Escape.hex src (Escape.width c) with
      | some denoted => pure [denoted]
      | none => do
        moveTo restore
        pure [c]
  else
    match StringLiteral.control? c with
    | some denoted => pure [denoted]
    | none =>
      if c = 0x30 then do
        if isDecimalDigit (← current src) then throw .templateOctal else pure [0]
      else if isOctalDigit c then throw .templateOctal
      else pure [c]

/-- The characters up to a substitution or the closing quote, either of which is taken too: the text
they denote, and whether the template ends here. -/
def body (src : Source) : ScanM (Text × Bool) :=
  repeated src (fun cooked => do
    if ← atEnd src then throw .illegal
    else do
      let c ← next src
      if c = 0x60 then pure (.inr (cooked, true))
      else if c = 0x24 then do
        if (← current src) = 0x7B then do
          openBrace .substitution
          skip 1
          pure (.inr (cooked, false))
        else pure (.inl (cooked ++ [c]))
      else if c = 0x5C then do
        let denoted ← escape src
        pure (.inl (cooked ++ denoted))
      else if isLineTerminator c then do
        StringLiteral.continuation src c
        pure (.inl (cooked ++ [0x0A]))
      else pure (.inl (cooked ++ [c]))) []

/-- The template piece at the cursor. A piece that goes on after a substitution closes its brace. -/
def token (src : Source) : ScanM Token := do
  let start := (← get).index
  let head := (← current src) = 0x60
  skip 1
  let (cooked, tail) ← body src
  if head then pure () else closeBrace
  let here ← get
  pure
    { lexeme :=
        .template cooked (src.slice (start + 1) (here.index - if tail then 1 else 2)) head tail
      lineNumber := here.lineNumber
      lineStart := some here.lineStart
      start
      stop := here.index }

end EcmaScript.Template
