import EcmaScript.Grammar.Goal

/-!
Names that a program binds, and patterns with defaults. Array and object patterns in binding places
are outside ECMAScript 5.1.
-/

namespace EcmaScript.Grammar

open Parse

/-- A name in a binding place. -/
def bindingName : ParseM Text := do
  let token ← take
  match token.lexeme with
  | .identifier name => pure name
  | .keyword word => do
    if (← isStrict) && word.text.isStrictReserved then
      unexpectedAs token (some .strictReservedWord)
    else unexpected token
  | _ => unexpected token

/-- A name in a binding place, as a node. -/
def bindingIdentifier : ParseM Node := do
  return .identifier (← bindingName)

def arrayPattern {α : Type} : ParseM α :=
  unsupported "ArrayPattern"

def objectPattern {α : Type} : ParseM α :=
  unsupported "ObjectPattern"

def restElement {α : Type} : ParseM α :=
  unsupported "RestElement"

/-- The name that a binding pattern consists of. -/
def pattern : ParseM Text := do
  let token ← lookahead
  match token.lexeme with
  | .identifier _ => bindingName
  | .punctuator .openBracket => arrayPattern
  | .punctuator .openBrace => objectPattern
  | _ => unexpected token

/-- The value after an equals sign that has been seen. -/
def initializer (reader : Reader) : ParseM Node := do
  drop
  isolated (reader .assignment)

/-- A pattern and its default value. -/
def patternAndDefault (reader : Reader) : ParseM (Text × Option Node) := do
  let name ← pattern
  if ← atMark .assign then do
    let value ← initializer reader
    pure (name, some value)
  else pure (name, none)

def patternWithDefault (reader : Reader) : ParseM Node := do
  match ← patternAndDefault reader with
  | (name, some value) => pure (.assignmentPattern (.identifier name) value)
  | (name, none) => pure (.identifier name)

end EcmaScript.Grammar
