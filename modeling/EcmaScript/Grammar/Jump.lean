import EcmaScript.Grammar.Declaration

/-!
Jump statements: `continue`, `break`, `return` and `throw`.
-/

namespace EcmaScript.Grammar

open Parse

/-- Complains unless a jump without a label is allowed here. -/
def checkJump (allowed : Context → Bool) (message : Message) : ParseM Unit := do
  if allowed (← context) then pure () else complain message []

/-- The label of a jump, which must be one of an enclosing statement. -/
def jumpLabel? : ParseM (Option Text) := do
  match (← lookahead).lexeme with
  | .identifier _ => do
    let name ← bindingName
    if (← context).labels.contains name then pure (some name)
    else complain .unknownLabel [name]
  | _ => pure none

/-- The rest of a jump after its keyword. `immediate` tells whether its semicolon has been seen. -/
def jumpTail (allowed : Context → Bool) (message : Message) (immediate : Bool) :
    ParseM (Option Node) := do
  if immediate then do
    drop
    checkJump allowed message
    pure none
  else do
    if ← afterLineBreak then do
      checkJump allowed message
      pure none
    else do
      let label ← jumpLabel?
      consumeSemicolon
      match label with
      | some name => pure (some (.identifier name))
      | none => do
        checkJump allowed message
        pure none

/-- A `continue` statement; its semicolon is looked for where the lookahead starts. -/
def continueStatement : ParseM Node := do
  expectKeyword .continue_
  let c ← characterAt (← startMark).index
  let label ← jumpTail (·.inIteration) .illegalContinue (c = 0x3B)
  pure (.continueStatement label)

/-- A `break` statement; its semicolon is looked for right after the keyword. -/
def breakStatement : ParseM Node := do
  expectKeyword .break_
  let c ← characterAt (← lastMark).index
  let label ← jumpTail (fun c => c.inIteration || c.inSwitch) .illegalBreak (c = 0x3B)
  pure (.breakStatement label)

/-- Whether a blank and the start of an identifier stand right after the keyword. -/
def nameFollows : ParseM Bool := do
  let mark ← lastMark
  if (← characterAt mark.index) = 0x20 then
    return Character.isIdentifierStart (← characterAt (mark.index + 1))
  else pure false

def returnStatement (reader : Reader) : ParseM Node := do
  expectKeyword .return_
  if (← context).inFunctionBody then do
    if ← nameFollows then do
      let argument ← expression reader
      consumeSemicolon
      pure (.returnStatement (some argument))
    else do
      if ← afterLineBreak then pure (.returnStatement none)
      else do
        let lexeme := (← lookahead).lexeme
        let argument ←
          if lexeme = .punctuator .semicolon || lexeme = .punctuator .closeBrace
              || lexeme = .endOfSource then pure none
          else some <$> expression reader
        consumeSemicolon
        pure (.returnStatement argument)
  else complain .illegalReturn []

def throwStatement (reader : Reader) : ParseM Node := do
  expectKeyword .throw
  if ← afterLineBreak then complain .newlineAfterThrow []
  else do
    let argument ← expression reader
    consumeSemicolon
    pure (.throwStatement argument)

end EcmaScript.Grammar
