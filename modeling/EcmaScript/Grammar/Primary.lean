import EcmaScript.Grammar.Property

/-!
Primary expressions: names, literals, groups, arrays, objects and functions.
-/

namespace EcmaScript.Grammar

open Parse

/-- The next element of an array, or nothing more before the closing bracket. -/
def nextElement (reader : Reader) (elements : List (Option Node)) :
    ParseM (List (Option Node) ⊕ List (Option Node)) := do
  let token ← lookahead
  match token.lexeme with
  | .punctuator .closeBracket => pure (.inr elements)
  | .punctuator .comma => do
    drop
    pure (.inl (elements ++ [none]))
  | .punctuator .ellipsis => do
    drop
    unsupported "SpreadElement"
  | _ => do
    let element ← inherited (reader .assignment)
    if ← atMark .closeBracket then pure ()
    else expect .comma
    pure (.inl (elements ++ [some element]))

/-- An array expression. -/
def arrayInitializer (reader : Reader) : ParseM Node := do
  expect .openBracket
  let elements ← repeated (nextElement reader) []
  drop
  pure (.arrayExpression elements)

/-- The expression after a comma, or nothing more where there is none. -/
def nextExpression (expression : ParseM Node) (expressions : List Node) :
    ParseM (List Node ⊕ List Node) := do
  if ← inside then do
    if ← atMark .comma then do
      drop
      let next ← expression
      pure (.inl (expressions ++ [next]))
    else pure (.inr expressions)
  else pure (.inr expressions)

/-- One more expression of a group or sequence for each comma that comes next. -/
def moreExpressions (expression : ParseM Node) (first : Node) : ParseM (List Node) :=
  repeated (nextExpression expression) [first]

/-- An expression after a comma in a group; an ellipsis there belongs to an arrow function. -/
def groupMember (reader : Reader) : ParseM Node := do
  if ← atMark .ellipsis then unsupported "ArrowFunction"
  else inherited (reader .assignment)

/-- The end of a group, behind the expression in it. -/
def closeGroup (expression : Node) : ParseM Node := do
  expect .closeParen
  if ← atMark .arrow then unsupported "ArrowFunction"
  else do
    modify fun p => { p with bindingElement := some false }
    pure expression

/-- An expression in parentheses. Parameters of an arrow function are recognised and refused. -/
def group (reader : Reader) : ParseM Node := do
  expect .openParen
  if ← atMark .closeParen then unsupported "ArrowFunction"
  else do
    if ← atMark .ellipsis then restElement
    else do
      modify fun p => { p with bindingElement := some true }
      let first ← inherited (reader .assignment)
      let expression ←
        if ← atMark .comma then do
          modify fun p => { p with assignmentTarget := some false }
          let expressions ← moreExpressions (groupMember reader) first
          pure (.sequenceExpression expressions)
        else pure first
      closeGroup expression

/-- A piece of a template, which is recognised and refused. -/
def templateElement {α : Type} (headRequired : Bool) : ParseM α := do
  match (← lookahead).lexeme with
  | .template _ _ head _ =>
    if headRequired && !head then illegal
    else do
      drop
      unsupported "TemplateElement"
  | _ => illegal

def templateLiteral {α : Type} : ParseM α :=
  templateElement true

/-- The regular expression that starts with the slash in the lookahead. -/
def regExpLiteral : ParseM Node := do
  expressionOnly
  let mark ← startMark
  modify fun p => { p with cursor := { p.cursor with index := mark.index } }
  let r ← regExp
  drop
  pure (.literal (.regExp r.pattern r.flags) r.raw)

/-- The remaining expressions that start with a keyword. -/
def keywordExpression (reader : Reader) (word : Keyword) : ParseM Node := do
  expressionOnly
  match word with
  | .function => functionExpression reader
  | .this => do
    drop
    pure .thisExpression
  | .class_ => unsupported "ClassExpression"
  | _ => unexpected (← take)

def primary (reader : Reader) : ParseM Node := do
  let token ← lookahead
  match token.lexeme with
  | .punctuator .openParen => do
    modify fun p => { p with bindingElement := some false }
    inherited (group reader)
  | .punctuator .openBracket => inherited (arrayInitializer reader)
  | .punctuator .openBrace => inherited (objectInitializer reader)
  | .identifier name => do
    drop
    pure (.identifier name)
  | .string value _ => do
    expressionOnly
    refuseOctalString token
    drop
    pure (.literal (.string value) (token.raw.getD []))
  | .numeric value => do
    expressionOnly
    drop
    pure (.literal (.number value) (token.raw.getD []))
  | .keyword word => keywordExpression reader word
  | .boolean value => do
    modify fun p => { p with bindingElement := some false }
    drop
    pure (.literal (.boolean value) (token.raw.getD []))
  | .null => do
    expressionOnly
    drop
    pure (.literal .null (token.raw.getD []))
  | .punctuator .slash | .punctuator .slashAssign => regExpLiteral
  | .template .. => templateLiteral
  | .punctuator _ | .endOfSource => unexpected (← take)

end EcmaScript.Grammar
