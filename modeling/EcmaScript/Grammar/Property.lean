import EcmaScript.Grammar.Function

/-!
Properties of object expressions: data properties, shorthands, accessors and methods.
-/

namespace EcmaScript.Grammar

open Parse

/-- The literal that a string or number token denotes. -/
def tokenLiteral? (token : Token) : Option Node :=
  match token.lexeme with
  | .string value _ => some (.literal (.string value) (token.raw.getD []))
  | .numeric value => some (.literal (.number value) (token.raw.getD []))
  | _ => none

/-- Strict code has no octal escapes in its strings. -/
def refuseOctalString (token : Token) : ParseM Unit := do
  match token.lexeme with
  | .string _ true =>
    if ← isStrict then unexpectedAs token (some .strictOctalLiteral) else pure ()
  | _ => pure ()

/-- The key of a property: a literal, any word, or an expression in brackets. -/
def propertyKey (reader : Reader) : ParseM Node := do
  let token ← take
  match tokenLiteral? token with
  | some literal => do
    refuseOctalString token
    pure literal
  | none =>
    match token.lexeme.name? with
    | some name => pure (.identifier name)
    | none =>
      if token.lexeme = .punctuator .openBracket then do
        let key ← isolated (reader .assignment)
        expect .closeBracket
        pure key
      else unexpected token

def atPropertyName : ParseM Bool := do
  return (← lookahead).lexeme.startsPropertyName

/-- A getter after the word `get`. -/
def getter (reader : Reader) : ParseM Node := do
  let computed ← atMark .openBracket
  let key ← propertyKey reader
  expect .openParen
  expect .closeParen
  let value ← methodOf reader {}
  pure (.property .get key computed value false false)

/-- A setter after the word `set`. It has one parameter. -/
def setter (reader : Reader) : ParseM Node := do
  let computed ← atMark .openBracket
  let key ← propertyKey reader
  expect .openParen
  if ← atMark .closeParen then unexpected (← lookahead)
  else do
    let f ← addParameter reader id {}
    expect .closeParen
    let value ← methodOf reader f
    pure (.property .set key computed value false false)

/-- The rest of an accessor or method whose first word and key have been taken; nothing if it is a
property of another form. -/
def methodDefinition? (reader : Reader) (first : Lexeme) (key : Node) (computed : Bool) :
    ParseM (Option Node) := do
  let accessor ←
    if first = .identifier (Text.ofString "get") then do
      if ← atPropertyName then some <$> getter reader else pure none
    else if first = .identifier (Text.ofString "set") then do
      if ← atPropertyName then some <$> setter reader else pure none
    else pure none
  match accessor with
  | some node => pure (some node)
  | none => do
    if ← atMark .openParen then do
      let value ← method reader
      pure (some (.property .init key computed value true false))
    else pure none

/-- A shorthand property. With a value after its name it makes sense in a target only. -/
def shorthand (reader : Reader) (key : Node) (computed : Bool) : ParseM Node := do
  if ← atMark .assign then do
    let token ← lookahead
    modify fun p => { p with coverInitialized := some token }
    let value ← initializer reader
    pure (.property .init key computed (.assignmentPattern key value) false true)
  else pure (.property .init key computed key false true)

def property (reader : Reader) : ParseM Node := do
  let token ← lookahead
  let computed ← atMark .openBracket
  let key ← propertyKey reader
  match ← methodDefinition? reader token.lexeme key computed with
  | some node => pure node
  | none => do
    if ← atMark .colon then do
      drop
      let value ← inherited (reader .assignment)
      pure (.property .init key computed value false false)
    else
      match token.lexeme with
      | .identifier _ => shorthand reader key computed
      | _ => unexpected (← lookahead)

/-- The next property of an object, or nothing more before the closing brace. -/
def nextProperty (reader : Reader) (properties : List Node) : ParseM (List Node ⊕ List Node) := do
  if ← atMark .closeBrace then pure (.inr properties)
  else do
    let next ← property reader
    if ← atMark .closeBrace then pure ()
    else expect .comma
    pure (.inl (properties ++ [next]))

/-- An object expression. -/
def objectInitializer (reader : Reader) : ParseM Node := do
  expect .openBrace
  let properties ← repeated (nextProperty reader) []
  expect .closeBrace
  pure (.objectExpression properties)

/-- A property of an object pattern. -/
def propertyPattern (reader : Reader) : ParseM Node := do
  let computed ← atMark .openBracket
  match (← lookahead).lexeme with
  | .identifier _ => do
    let key ← bindingIdentifier
    if ← atMark .assign then do
      drop
      let value ← reader .assignment
      pure (.property .init key false (.assignmentPattern key value) false false)
    else do
      if ← atMark .colon then tail computed key
      else pure (.property .init key false key false true)
  | _ => do
    let key ← propertyKey reader
    tail computed key
where
  tail (computed : Bool) (key : Node) : ParseM Node := do
    expect .colon
    let value ← patternWithDefault reader
    pure (.property .init key computed value false false)

end EcmaScript.Grammar
