import EcmaScript.Grammar.Declaration

/-!
Iteration statements.
-/

namespace EcmaScript.Grammar

open Parse

/-- Reads the body of a loop. -/
def loopBody (body : ParseM Node) : ParseM Node := do
  let outer ← context
  changeContext fun c => { c with inIteration := true }
  let result ← body
  changeContext fun c => { c with inIteration := outer.inIteration }
  pure result

/-- An expression in parentheses, as in the head of a statement. -/
def headExpression (reader : Reader) : ParseM Node := do
  expect .openParen
  let test ← expression reader
  expect .closeParen
  pure test

def doWhileStatement (reader : Reader) : ParseM Node := do
  expectKeyword .do_
  let body ← loopBody (reader .statement)
  expectKeyword .while_
  let test ← headExpression reader
  if ← atMark .semicolon then drop else pure ()
  pure (.doWhileStatement body test)

def whileStatement (reader : Reader) : ParseM Node := do
  expectKeyword .while_
  let test ← headExpression reader
  let body ← loopBody (reader .statement)
  pure (.whileStatement test body)

/-- What stands before the body of a `for` statement. -/
inductive ForHead where
  | counting (init test update : Option Node)
  | enumerating (left right : Node)

/-- Reads a part of a `for` head in which the keyword `in` is no operator. -/
def withoutIn {α : Type} (outer : Context) (part : ParseM α) : ParseM α := do
  changeContext fun c => { c with allowIn := false }
  let result ← part
  changeContext fun c => { c with allowIn := outer.allowIn }
  pure result

/-- The rest of a `for` head after the keyword `in`. -/
def enumeration (reader : Reader) (left : Node) : ParseM ForHead := do
  let right ← expression reader
  pure (.enumerating left right)

/-- The rest of a `for` head after the test. -/
def countingRest (reader : Reader) (init test : Option Node) : ParseM ForHead := do
  expect .semicolon
  let update ← if ← atMark .closeParen then pure none else some <$> expression reader
  pure (.counting init test update)

/-- The rest of a `for` head after the first semicolon. -/
def counting (reader : Reader) (init : Option Node) : ParseM ForHead := do
  let test ← if ← atMark .semicolon then pure none else some <$> expression reader
  countingRest reader init test

/-- A `for` head that starts with declarators. Before `in` a list that is fit for it is enumerated;
otherwise `stop` ends it. -/
def declaredHead (reader : Reader) (outer : Context) (kind : DeclarationKind)
    (declarators : ParseM (List Node)) (isFit : List Node → Bool) (stop : ParseM Unit) : ParseM ForHead := do
  drop
  let list ← withoutIn outer declarators
  let init : Node := .variableDeclaration kind list
  if isFit list && (← atKeyword .in_) then do
    drop
    enumeration reader init
  else do
    stop
    counting reader (some init)

/-- A `for` head that declares variables. -/
def variableHead (reader : Reader) (outer : Context) : ParseM ForHead :=
  declaredHead reader outer .var (variableDeclarators reader) (fun list => list.length = 1)
    (expect .semicolon)

/-- Whether a declarator has no initial value. -/
def isUninitialized : Node → Bool
  | .variableDeclarator _ none => true
  | _ => false

/-- A `for` head with a lexical declaration. -/
def lexicalHead (reader : Reader) (outer : Context) (kind : DeclarationKind) : ParseM ForHead :=
  declaredHead reader outer kind (lexicalBindings reader (kind = .const))
    (fun list => list.length = 1 && list.all isUninitialized) consumeSemicolon

/-- The rest of a sequence whose commas are all followed by expressions. -/
def initSequence (reader : Reader) (first : Node) : ParseM Node := do
  if ← atMark .comma then do
    let expressions ← repeated (fun expressions => do
      if ← atMark .comma then do
        drop
        let next ← isolated (reader .assignment)
        pure (.inl (expressions ++ [next]))
      else pure (.inr expressions)) [first]
    pure (.sequenceExpression expressions)
  else pure first

/-- A `for` head that starts with an expression. -/
def expressionHead (reader : Reader) (outer : Context) : ParseM ForHead := do
  let init ← withoutIn outer (inherited (assignmentExpression reader))
  if ← atKeyword .in_ then do
    if (← get).assignmentTarget = some true then do
      drop
      let left ← reinterpreted init
      enumeration reader left
    else complain .invalidForInTarget []
  else do
    let init ← initSequence reader init
    expect .semicolon
    counting reader (some init)

def forHead (reader : Reader) (outer : Context) : ParseM ForHead := do
  let lexeme := (← lookahead).lexeme
  if lexeme = .punctuator .semicolon then do
    drop
    counting reader none
  else if lexeme = .keyword .var then variableHead reader outer
  else
    match lexicalKind? lexeme with
    | some kind => lexicalHead reader outer kind
    | none => expressionHead reader outer

def forStatement (reader : Reader) : ParseM Node := do
  let outer ← context
  expectKeyword .for_
  expect .openParen
  let head ← forHead reader outer
  expect .closeParen
  let body ← loopBody (isolated (reader .statement))
  match head with
  | .counting init test update => pure (.forStatement init test update body)
  | .enumerating left right => pure (.forInStatement left right body)

end EcmaScript.Grammar
