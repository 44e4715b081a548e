import EcmaScript.Grammar.Iteration
import EcmaScript.Grammar.Jump

/-!
Statements, and the items of statement lists, which may also be declarations.
-/

namespace EcmaScript.Grammar

open Parse

def block (reader : Reader) : ParseM Node := do
  expect .openBrace
  let body ← statementsFrom reader []
  expect .closeBrace
  pure (.blockStatement body)

def emptyStatement : ParseM Node := do
  expect .semicolon
  pure .emptyStatement

def expressionStatement (reader : Reader) : ParseM Node := do
  let result ← expression reader
  consumeSemicolon
  pure (.expressionStatement result)

def ifStatement (reader : Reader) : ParseM Node := do
  expectKeyword .if_
  let test ← headExpression reader
  let consequent ← reader .statement
  if ← atKeyword .else_ then do
    drop
    let alternate ← reader .statement
    pure (.ifStatement test consequent (some alternate))
  else pure (.ifStatement test consequent none)

def withStatement (reader : Reader) : ParseM Node := do
  if ← isStrict then complain .strictWith []
  else do
    expectKeyword .with_
    let object ← headExpression reader
    let body ← reader .statement
    pure (.withStatement object body)

/-- The test of a clause; there is none after `default`. -/
def clauseTest (reader : Reader) : ParseM (Option Node) := do
  if ← atKeyword .default then do
    drop
    pure none
  else do
    expectKeyword .case_
    some <$> expression reader

/-- Whether the lookahead ends a clause. -/
def endsClause : Lexeme → Bool
  | .punctuator .closeBrace | .keyword .default | .keyword .case_ => true
  | _ => false

/-- A clause of a `switch` statement: its test and its statements. -/
def switchClause (reader : Reader) : ParseM (Option Node × List Node) := do
  let test ← clauseTest reader
  expect .colon
  let consequent ← repeated (fun statements => do
    if ← inside then do
      if endsClause (← lookahead).lexeme then pure (.inr statements)
      else do
        let statement ← reader .listItem
        pure (.inl (statements ++ [statement]))
    else pure (.inr statements)) []
  pure (test, consequent)

def switchCase (reader : Reader) : ParseM Node := do
  let (test, consequent) ← switchClause reader
  pure (.switchCase test consequent)

/-- The clauses of a `switch` statement, of which one at most is a default. -/
def switchCases (reader : Reader) : ParseM (List Node) :=
  repeated (fun (cases, defaultFound) => do
    if ← inside then do
      if ← atMark .closeBrace then pure (.inr cases)
      else do
        let (test, consequent) ← switchClause reader
        if test.isNone && defaultFound then complain .multipleDefaults []
        else pure (.inl (cases ++ [.switchCase test consequent], defaultFound || test.isNone))
    else pure (.inr cases)) (([] : List Node), false)

/-- Reads the clauses of a `switch` statement in their context. -/
def switchBody (cases : ParseM (List Node)) : ParseM (List Node) := do
  let outer ← context
  changeContext fun c => { c with inSwitch := true }
  let result ← cases
  changeContext fun c => { c with inSwitch := outer.inSwitch }
  pure result

def switchStatement (reader : Reader) : ParseM Node := do
  expectKeyword .switch
  let discriminant ← headExpression reader
  expect .openBrace
  if ← atMark .closeBrace then do
    drop
    pure (.switchStatement discriminant [])
  else do
    let cases ← switchBody (switchCases reader)
    expect .closeBrace
    pure (.switchStatement discriminant cases)

def catchClause (reader : Reader) : ParseM Node := do
  expectKeyword .catch_
  expect .openParen
  if ← atMark .closeParen then unexpected (← lookahead)
  else do
    let name ← pattern
    refuseRestrictedName name .strictCatchVariable
    expect .closeParen
    let body ← block reader
    pure (.catchClause (.identifier name) body)

/-- The end of a `try` statement, which needs one of its clauses. -/
def tryEnd (body : Node) (handler finalizer : Option Node) : ParseM Node :=
  if handler.isNone && finalizer.isNone then complain .noCatchOrFinally []
  else pure (.tryStatement body handler finalizer)

/-- The rest of a `try` statement behind the place of its handler. -/
def tryRest (reader : Reader) (body : Node) (handler : Option Node) : ParseM Node := do
  let finalizer ←
    if ← atKeyword .finally_ then do
      drop
      some <$> block reader
    else pure none
  tryEnd body handler finalizer

def tryStatement (reader : Reader) : ParseM Node := do
  expectKeyword .try_
  let body ← block reader
  let handler ← if ← atKeyword .catch_ then some <$> catchClause reader else pure none
  tryRest reader body handler

def debuggerStatement : ParseM Node := do
  expectKeyword .debugger
  consumeSemicolon
  pure .debuggerStatement

/-- The statement after a label, whose colon is the lookahead. -/
def labeledStatement (reader : Reader) (name : Text) : ParseM Node := do
  drop
  if (← context).labels.contains name then
    complain .redeclaration [Text.ofString "Label", name]
  else do
    changeContext fun c => { c with labels := c.labels ++ [name] }
    let body ← reader .statement
    changeContext fun c => { c with labels := c.labels.erase name }
    pure (.labeledStatement (.identifier name) body)

/-- A statement that starts with an expression: a labelled one or an expression statement. -/
def expressionOrLabel (reader : Reader) : ParseM Node := do
  let result ← expression reader
  match result with
  | .identifier name => do
    if ← atMark .colon then labeledStatement reader name
    else do
      consumeSemicolon
      pure (.expressionStatement result)
  | _ => do
    consumeSemicolon
    pure (.expressionStatement result)

/-- Nothing has been read of the statement that starts here. -/
def freshStatement : ParseM Unit :=
  modify fun p => { p with assignmentTarget := some true, bindingElement := some true }

/-- The statements that start with a keyword. -/
def keywordStatement (reader : Reader) : Keyword → ParseM Node
  | .break_ => breakStatement
  | .continue_ => continueStatement
  | .debugger => debuggerStatement
  | .do_ => doWhileStatement reader
  | .for_ => forStatement reader
  | .function => functionDeclaration reader false
  | .if_ => ifStatement reader
  | .return_ => returnStatement reader
  | .switch => switchStatement reader
  | .throw => throwStatement reader
  | .try_ => tryStatement reader
  | .var => variableStatement reader
  | .while_ => whileStatement reader
  | .with_ => withStatement reader
  | _ => expressionOrLabel reader

def statement (reader : Reader) : ParseM Node := do
  let token ← lookahead
  match token.lexeme with
  | .endOfSource => unexpected token
  | .punctuator .openBrace => block reader
  | .punctuator .semicolon => do
    freshStatement
    emptyStatement
  | .punctuator .openParen => do
    freshStatement
    expressionStatement reader
  | .keyword word => do
    freshStatement
    keywordStatement reader word
  | _ => do
    freshStatement
    expressionOrLabel reader

/-- A `pyimport` statement, which has to be switched on. -/
def pyimportStatement : ParseM Node := do
  if (← get).settings.pyimport then do
    drop
    let module ← bindingIdentifier
    consumeSemicolon
    pure (.pyimportStatement module)
  else unsupported "PyimportStatement"

/-- A statement or declaration in a list of statements. -/
def listItem (reader : Reader) : ParseM Node := do
  match (← lookahead).lexeme with
  | .keyword .export_ => unsupported "ExportDeclaration"
  | .keyword .import_ => unsupported "ImportDeclaration"
  | .keyword .const | .keyword .let_ => lexicalDeclaration reader
  | .keyword .function => functionDeclaration reader false
  | .keyword .class_ => unsupported "ClassDeclaration"
  | .keyword .pyimport => do
    if (← get).settings.pyimport then pyimportStatement else statement reader
  | _ => statement reader

end EcmaScript.Grammar
