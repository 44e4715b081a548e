import EcmaScript.Grammar.Operation

/-!
Variable and lexical declarations.
-/

namespace EcmaScript.Grammar

open Parse

/-- Strict code cannot declare `eval` or `arguments`. -/
def refuseRestrictedName (name : Text) (message : Message) : ParseM Unit := do
  if (← isStrict) && name.isRestricted then complain message [] else pure ()

/-- The value after an equals sign, if one comes next. -/
def initializer? (reader : Reader) : ParseM (Option Node) := do
  if ← atMark .assign then some <$> initializer reader else pure none

/-- One variable with its initial value. -/
def variableDeclarator (reader : Reader) : ParseM Node := do
  let name ← pattern
  refuseRestrictedName name .strictVariableName
  let init ← initializer? reader
  pure (.variableDeclarator (.identifier name) init)

/-- Declarators separated by commas. A comma at the very end of the source is taken, too. -/
def declarators (declarator : ParseM Node) : ParseM (List Node) :=
  repeated (fun list => do
    let next ← declarator
    let list := list ++ [next]
    if ← atMark .comma then do
      drop
      if ← inside then pure (.inl list) else pure (.inr list)
    else pure (.inr list)) []

def variableDeclarators (reader : Reader) : ParseM (List Node) :=
  declarators (variableDeclarator reader)

def variableStatement (reader : Reader) : ParseM Node := do
  expectKeyword .var
  let list ← variableDeclarators reader
  consumeSemicolon
  pure (.variableDeclaration .var list)

/-- One lexical binding. A constant has an initial value unless the keyword `in` follows. -/
def lexicalBinding (reader : Reader) (constant : Bool) : ParseM Node := do
  let name ← pattern
  refuseRestrictedName name .strictVariableName
  let init ←
    if constant then do
      if ← atKeyword .in_ then pure none
      else do
        expect .assign
        some <$> isolated (reader .assignment)
    else initializer? reader
  pure (.variableDeclarator (.identifier name) init)

def lexicalBindings (reader : Reader) (constant : Bool) : ParseM (List Node) :=
  declarators (lexicalBinding reader constant)

/-- The kind of a lexical declaration, by its keyword. -/
def lexicalKind? : Lexeme → Option DeclarationKind
  | .keyword .let_ => some .let_
  | .keyword .const => some .const
  | _ => none

/-- The kind of a lexical declaration, by a keyword or by a string in its place. -/
def spelledKind? : Lexeme → Option DeclarationKind
  | .string value _ => (Keyword.ofText? value).bind fun word => lexicalKind? (.keyword word)
  | lexeme => lexicalKind? lexeme

def lexicalDeclaration (reader : Reader) : ParseM Node := do
  let token ← take
  match spelledKind? token.lexeme with
  | some kind => do
    let list ← lexicalBindings reader (kind = .const)
    consumeSemicolon
    pure (.variableDeclaration kind list)
  | none =>
    if token.lexeme = .endOfSource then throw .missingKey
    else
      throw (.precondition (Text.ofString "Lexical declaration must be either let or const"))

end EcmaScript.Grammar
