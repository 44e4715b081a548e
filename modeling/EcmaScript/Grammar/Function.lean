import EcmaScript.Grammar.Binding

/-!
Functions: parameters, bodies with their directives, declarations and expressions. Whether a name or
parameter was admissible in strict code is known only after the body, which may begin with the
directive `"use strict"`.
-/

namespace EcmaScript.Grammar

open Parse

/-- Parameters read so far. `stricted` is a parameter that strict code forbids, `firstRestricted`
the first one that it would forbid, and `message` says why. The type of what is to blame for a
parameter is left open. -/
structure Formals (β : Type) where
  params : List Node := []
  defaults : List (Option Node) := []
  names : List Text := []
  stricted : Option β := none
  firstRestricted : Option β := none
  message : Option Message := none

namespace Formals

variable {β : Type}

/-- Records the name of a parameter and what strict code says about it. -/
def declare (strict : Bool) (blame : β) (name : Text) (f : Formals β) : Formals β :=
  let f :=
    if strict then
      let f :=
        if name.isRestricted then
          { f with stricted := some blame, message := some .strictParameterName }
        else f
      if f.names.contains name then
        { f with stricted := some blame, message := some .strictParameterTwice }
      else f
    else if f.firstRestricted.isSome then f
    else if name.isRestricted then
      { f with firstRestricted := some blame, message := some .strictParameterName }
    else if name.isStrictReserved then
      { f with firstRestricted := some blame, message := some .strictReservedWord }
    else if f.names.contains name then
      { f with firstRestricted := some blame, message := some .strictParameterTwice }
    else f
  if f.names.contains name then f else { f with names := f.names ++ [name] }

def add (name : Text) (default : Option Node) (f : Formals β) : Formals β :=
  { f with params := f.params ++ [.identifier name], defaults := f.defaults ++ [default] }

/-- Defaults are listed only if some parameter has one. -/
def effectiveDefaults (f : Formals β) : List (Option Node) :=
  if f.defaults.any Option.isSome then f.defaults else []

end Formals

/-- One parameter: the token that starts it, its name and its default. -/
def parameter (reader : Reader) : ParseM (Token × Text × Option Node) := do
  let token ← lookahead
  if token.lexeme.isEllipsis then restElement
  else if token.lexeme = .endOfSource then throw .missingKey
  else do
    let (name, default) ← patternAndDefault reader
    pure (token, name, default)

/-- One parameter with what is to blame for it, added to those before. -/
def addParameter {β : Type} (reader : Reader) (blame : Token → β) (f : Formals β) :
    ParseM (Formals β) := do
  let (token, name, default) ← parameter reader
  return (f.declare (← isStrict) (blame token) name).add name default

/-- A parenthesised list of parameters. -/
def parameters {β : Type} (reader : Reader) (blame : Token → β) (firstRestricted : Option β) :
    ParseM (Formals β) := do
  expect .openParen
  let empty : Formals β := { firstRestricted }
  let f ←
    if ← atMark .closeParen then pure empty
    else
      repeated (fun f => do
        if ← inside then do
          let f ← addParameter reader blame f
          if ← atMark .closeParen then pure (.inr f)
          else do
            expect .comma
            pure (.inl f)
        else pure (.inr f)) empty
  expect .closeParen
  pure f

/-- Whether a statement is a directive: its expression is a literal. Only an expression statement has
an expression. -/
def isDirective : Node → ParseM Bool
  | .expressionStatement expression => pure expression.isLiteral
  | _ => throw .missingAttribute

/-- The octal literal among the directives before `"use strict"`, which strict code forbids. -/
def refuseOctal (octal : Option Token) : ParseM Unit :=
  match octal with
  | some token => unexpectedAs token (some .strictOctalLiteral)
  | none => pure ()

/-- Directives: the string statements at the start of a body. -/
def directives (reader : Reader) : ParseM (List Node) :=
  repeated (fun (body, octal) => do
    if ← inside then do
      let token ← lookahead
      match token.lexeme with
      | .string _ isOctal => do
        let statement ← reader .listItem
        let body := body ++ [statement]
        if ← isDirective statement then do
          let src ← source
          if src.slice (token.start + 1) (token.stop - 1) = Text.ofString "use strict" then do
            modify fun p => { p with strict := some true }
            refuseOctal octal
            pure (.inl (body, octal))
          else pure (.inl (body, octal.or (if isOctal then some token else none)))
        else pure (.inr body)
      | _ => pure (.inr body)
    else pure (.inr body)) (([] : List Node), (none : Option Token))

/-- Statements up to a closing brace or the end of the source, added to those before. -/
def statementsFrom (reader : Reader) (before : List Node) : ParseM (List Node) :=
  repeated (fun statements => do
    if ← inside then do
      if ← atMark .closeBrace then pure (.inr statements)
      else do
        let statement ← reader .listItem
        pure (.inl (statements ++ [statement]))
    else pure (.inr statements)) before

/-- The body of a function in its braces. -/
def functionBody (reader : Reader) : ParseM Node := do
  expect .openBrace
  let body ← directives reader
  let outer ← context
  changeContext fun c =>
    { c with
      labels := []
      inIteration := false
      inSwitch := false
      inFunctionBody := true
      parenthesizedCount := some 0 }
  let body ← statementsFrom reader body
  expect .closeBrace
  changeContext fun c =>
    { c with
      labels := outer.labels
      inIteration := outer.inIteration
      inSwitch := outer.inSwitch
      inFunctionBody := outer.inFunctionBody
      parenthesizedCount := outer.parenthesizedCount }
  pure (.blockStatement body)

/-- The body of an arrow function: a body in braces or one expression. -/
def conciseBody (reader : Reader) : ParseM Node := do
  if ← atMark .openBrace then functionBody reader else isolated (reader .assignment)

/-- Complains in strict code about a parameter or name that it forbids. -/
def refuseRestricted (f : Formals Token) (message : Option Message) : ParseM Unit := do
  if ← isStrict then
    match f.firstRestricted with
    | some token => unexpectedAs token message
    | none =>
      match f.stricted with
      | some token => unexpectedAs token message
      | none => pure ()
  else pure ()

/-- Reads a body and makes a check on what came before it; code after the body is as strict as the
code before it. -/
def bodyThen (body : ParseM Node) (check : ParseM Unit) : ParseM Node := do
  let strict := (← get).strict
  let result ← body
  check
  modify fun p => { p with strict }
  pure result

/-- The name of a function, with the token that strict code would refuse and why. -/
def functionName : ParseM (Text × Option (Token × Message)) := do
  let token ← lookahead
  let name ← bindingName
  if ← isStrict then
    if name.isRestricted then unexpectedAs token (some .strictFunctionName)
    else pure (name, none)
  else if name.isRestricted then pure (name, some (token, .strictFunctionName))
  else if name.isStrictReserved then pure (name, some (token, .strictReservedWord))
  else pure (name, none)

/-- Parameters and body of a function after its name. -/
def functionRest (reader : Reader) (name : Option (Text × Option (Token × Message))) :
    ParseM (Option Node × Formals Token × Node) := do
  let restricted := name.bind Prod.snd
  let f ← parameters reader id (restricted.map Prod.fst)
  let message := f.message.or (restricted.map Prod.snd)
  let body ← bodyThen (functionBody reader) (refuseRestricted f message)
  pure (name.map (.identifier ∘ Prod.fst), f, body)

/-- Name, parameters and body of a function after its keyword. -/
def functionTail (reader : Reader) (nameRequired : Bool) :
    ParseM (Option Node × Formals Token × Node) := do
  let name ←
    if nameRequired then some <$> functionName
    else do
      if ← atMark .openParen then pure none else some <$> functionName
  functionRest reader name

/-- A function declaration; its name may be missing unless it is required. -/
def functionDeclaration (reader : Reader) (nameRequired : Bool) : ParseM Node := do
  expectKeyword .function
  let (name, f, body) ← functionTail reader nameRequired
  pure (.functionDeclaration name f.params f.effectiveDefaults body)

def functionExpression (reader : Reader) : ParseM Node := do
  expectKeyword .function
  let (name, f, body) ← functionTail reader false
  pure (.functionExpression name f.params f.effectiveDefaults body)

/-- The body of a method, followed by a check on its parameters. -/
def methodBody (reader : Reader) (check : ParseM Unit) : ParseM Node := do
  expressionOnly
  bodyThen (isolated (functionBody reader)) check

/-- A method whose parameters have been read. -/
def methodOf (reader : Reader) (f : Formals Token) : ParseM Node := do
  let body ← methodBody reader (refuseRestricted f f.message)
  pure (.functionExpression none f.params f.effectiveDefaults body)

/-- Parameters and body of a method. -/
def method (reader : Reader) : ParseM Node := do
  let f ← parameters reader id none
  methodOf reader f

end EcmaScript.Grammar
