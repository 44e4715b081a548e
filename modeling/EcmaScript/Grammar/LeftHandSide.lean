import EcmaScript.Grammar.Primary

/-!
Left-hand-side expressions: members, calls and `new`.
-/

namespace EcmaScript.Grammar

open Parse

/-- One or more assignment expressions, separated by commas. -/
def expressionFrom (assignment : ParseM Node) : ParseM Node := do
  let first ← isolated assignment
  if ← atMark .comma then do
    let expressions ← moreExpressions (isolated assignment) first
    pure (.sequenceExpression expressions)
  else pure first

/-- The next argument of a call. No more follow before the closing parenthesis. -/
def nextArgument (reader : Reader) (args : List Node) : ParseM (List Node ⊕ List Node) := do
  if ← inside then do
    let next ← isolated (reader .assignment)
    let args := args ++ [next]
    if ← atMark .closeParen then pure (.inr args)
    else do
      expect .comma
      pure (.inl args)
  else pure (.inr args)

/-- The arguments of a call in their parentheses. -/
def arguments (reader : Reader) : ParseM (List Node) := do
  expect .openParen
  let args ← if ← atMark .closeParen then pure [] else repeated (nextArgument reader) []
  expect .closeParen
  pure args

/-- The name after a dot; any word will do. -/
def dottedName : ParseM Node := do
  let token ← take
  match token.lexeme.name? with
  | some name => pure (.identifier name)
  | none => unexpected token

def dottedMember : ParseM Node := do
  expect .dot
  dottedName

/-- The key in brackets. -/
def computedMember (reader : Reader) : ParseM Node := do
  expect .openBracket
  let key ← isolated (expressionFrom (reader .assignment))
  expect .closeBracket
  pure key

def newExpression (reader : Reader) : ParseM Node := do
  expectKeyword .new
  let callee ← isolated (reader .leftHandSide)
  let args ← if ← atMark .openParen then arguments reader else pure []
  expressionOnly
  pure (.newExpression callee args)

/-- What members and calls are taken of. -/
def head (reader : Reader) : ParseM Node := do
  let token ← lookahead
  if token.lexeme = .keyword .super && (← context).inFunctionBody then do
    drop
    unsupported "Super"
  else inherited (if token.lexeme = .keyword .new then newExpression reader else primary reader)

/-- Notes that what was read last is an assignment target but no binding. -/
def targetOnly : ParseM Unit :=
  modify fun p => { p with bindingElement := some false, assignmentTarget := some true }

/-- The member or call that comes next after an expression, or the expression itself. -/
def suffix (reader : Reader) (allowCall : Bool) (expression : Node) : ParseM (Node ⊕ Node) := do
  match (← lookahead).lexeme with
  | .punctuator .dot => do
    targetOnly
    let name ← dottedMember
    pure (.inl (.memberExpression false expression name))
  | .punctuator .openParen =>
    if allowCall then do
      expressionOnly
      let args ← arguments reader
      pure (.inl (.callExpression expression args))
    else pure (.inr expression)
  | .punctuator .openBracket => do
    targetOnly
    let key ← computedMember reader
    pure (.inl (.memberExpression true expression key))
  | .template _ _ true _ => templateLiteral
  | _ => pure (.inr expression)

/-- The members, and the calls where allowed, that follow an expression. -/
def suffixes (reader : Reader) (allowCall : Bool) (start : Node) : ParseM Node :=
  repeated (suffix reader allowCall) start

/-- Reads a part in which the keyword `in` is an operator. -/
def withIn {α : Type} (part : ParseM α) : ParseM α := do
  let outer ← context
  changeContext fun c => { c with allowIn := true }
  let result ← part
  changeContext fun c => { c with allowIn := outer.allowIn }
  pure result

def leftHandSideAllowCall (reader : Reader) : ParseM Node :=
  withIn do
    let start ← head reader
    suffixes reader true start

/-- The callee of `new`, which holds no call. -/
def leftHandSide (reader : Reader) : ParseM Node := do
  if (← context).allowIn then do
    let start ← head reader
    suffixes reader false start
  else
    throw (.precondition (Text.ofString "callee of new expression always allow in keyword."))

end EcmaScript.Grammar
