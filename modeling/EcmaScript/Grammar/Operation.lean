import EcmaScript.Grammar.LeftHandSide

/-!
Operations: postfix, prefix, binary, conditional and assignment expressions, and sequences. Binary
expressions are read with a stack of operands that wait for their right-hand side.
-/

namespace EcmaScript.Grammar

open Parse

/-- Complains about an update of something that cannot be assigned. -/
def checkUpdate (argument : Node) (message : Message) : ParseM Unit := do
  if (← isStrict) && argument.isRestrictedName then complain message []
  else do
    if (← get).assignmentTarget = some true then pure ()
    else complain .invalidAssignmentTarget []

def postfixExpression (reader : Reader) : ParseM Node := do
  let argument ← inherited (leftHandSideAllowCall reader)
  if ← afterLineBreak then pure argument
  else do
    match (← lookahead).lexeme.updateOperator? with
    | some operator => do
      checkUpdate argument .strictPostfixTarget
      expressionOnly
      drop
      pure (.updateExpression operator false argument)
    | none => pure argument

/-- Strict code cannot delete a plain name. -/
def checkUnary (operator : UnaryOperator) (argument : Node) : ParseM Unit := do
  if (← isStrict) && operator = .delete && argument.name?.isSome then complain .strictDelete []
  else pure ()

def unaryExpression (reader : Reader) : ParseM Node := do
  let lexeme := (← lookahead).lexeme
  match lexeme.updateOperator? with
  | some operator => do
    drop
    let argument ← inherited (reader .unary)
    checkUpdate argument .strictPrefixTarget
    expressionOnly
    pure (.updateExpression operator true argument)
  | none =>
    match lexeme.unaryOperator? with
    | some operator => do
      drop
      let argument ← inherited (reader .unary)
      checkUnary operator argument
      expressionOnly
      pure (.unaryExpression operator argument)
    | none => postfixExpression reader

/-- An operand that waits for its right-hand side, and the operator between them. -/
structure Pending where
  left : Node
  operator : BinaryOperator

/-- Joins the operand with those that wait, innermost first, as long as their operators bind at
least as tightly as the given precedence. -/
def reduce (precedence : Nat) : List Pending → Node → List Pending × Node
  | [], right => ([], right)
  | pending :: rest, right =>
    if precedence ≤ pending.operator.precedence then
      reduce precedence rest (.binaryExpression pending.operator pending.left right)
    else (pending :: rest, right)

/-- Joins the operand with all that wait. -/
def reduceAll (stack : List Pending) (right : Node) : Node :=
  stack.foldl (fun right pending => .binaryExpression pending.operator pending.left right) right

/-- The binary operator in the lookahead, if one is there. -/
def binaryOperator? : ParseM (Option BinaryOperator) := do
  let token ← lookahead
  return token.lexeme.binaryOperator? (← context).allowIn

/-- Marks the lookahead as an operator. -/
def notePrecedence (operator : BinaryOperator) : ParseM Unit :=
  modify fun p =>
    { p with
      lookahead := p.lookahead.map fun token =>
        { token with precedence := some operator.precedence } }

def binaryExpression (reader : Reader) : ParseM Node := do
  let first ← inherited (unaryExpression reader)
  match ← binaryOperator? with
  | none => pure first
  | some operator => do
    expressionOnly
    notePrecedence operator
    drop
    let second ← isolated (unaryExpression reader)
    repeated (fun (stack, right) => do
      match ← binaryOperator? with
      | none => pure (.inr (reduceAll stack right))
      | some operator => do
        let (stack, left) := reduce operator.precedence stack right
        drop
        let right ← isolated (unaryExpression reader)
        pure (.inl ({ left, operator } :: stack, right)))
      ([{ left := first, operator }], second)

def conditionalExpression (reader : Reader) : ParseM Node := do
  let test ← inherited (binaryExpression reader)
  if ← atMark .question then do
    drop
    let consequent ← withIn (isolated (reader .assignment))
    expect .colon
    let alternate ← isolated (reader .assignment)
    expressionOnly
    pure (.conditionalExpression test consequent alternate)
  else pure test

/-- An expression as the target of an assignment. -/
def reinterpreted (expression : Node) : ParseM Node :=
  match expression.asPattern? with
  | some pattern => pure pattern
  | none => unsupported "AssignmentPattern"

/-- The left-hand side of an assignment, checked. `first` is the token that it starts with. -/
def assignmentTarget (first : Option Token) (operator : AssignmentOperator) (expression : Node) :
    ParseM Node := do
  if (← get).assignmentTarget = some true then do
    if (← isStrict) && expression.isRestrictedName then
      complainOf first (some .strictAssignmentTarget)
    else if operator = .assign then reinterpreted expression
    else do
      expressionOnly
      pure expression
  else complain .invalidAssignmentTarget []

def assignmentExpression (reader : Reader) : ParseM Node := do
  let first := (← get).lookahead
  let expression ← conditionalExpression reader
  if ← atMark .arrow then unsupported "ArrowFunctionExpression"
  else do
    match (← lookahead).lexeme.assignmentOperator? with
    | none => pure expression
    | some operator => do
      let left ← assignmentTarget first operator expression
      drop
      let right ← isolated (reader .assignment)
      modify fun p => { p with coverInitialized := none }
      pure (.assignmentExpression operator left right)

def expression (reader : Reader) : ParseM Node :=
  expressionFrom (assignmentExpression reader)

end EcmaScript.Grammar
