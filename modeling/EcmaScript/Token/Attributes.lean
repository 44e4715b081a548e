import EcmaScript.Parser.Complaint
import EcmaScript.Value

/-!
Tokens as attribute trees, and what can be asked of a token that is given as one.
-/

namespace EcmaScript

/-- The value of a token. The end of the source has none. -/
def Lexeme.value? : Lexeme → Option Value
  | .endOfSource => none
  | .numeric value => some (.ofNumber value)
  | .template cooked raw _ _ => some (.record [("cooked", .text cooked), ("raw", .text raw)])
  | lexeme => some (.text lexeme.shown)

/-- The attributes that only some kinds of token have. -/
def Lexeme.extra : Lexeme → Attributes
  | .string _ octal => [("octal", .bool octal)]
  | .template _ _ head tail => [("head", .bool head), ("tail", .bool tail)]
  | _ => []

namespace Token

/-- An attribute that may be missing. -/
def optional (key : String) (value : Option Value) : Attributes :=
  (value.map fun v => (key, v)).toList

def attributes (token : Token) : Attributes :=
  [("type", .ofNat token.lexeme.kind.code)]
  ++ optional "value" token.lexeme.value?
  ++ optional "raw" (token.raw.map .text)
  ++ token.lexeme.extra
  ++ [("lineNumber", .ofNat token.lineNumber), ("lineStart", .ofOption .ofNat token.lineStart),
      ("start", .ofNat token.start), ("end", .ofNat token.stop)]
  ++ optional "prec" (token.precedence.map .ofNat)

def toValue (token : Token) : Value :=
  .record token.attributes

end Token

namespace Attributes

/-- The attribute that has to be there. -/
def need (key : String) (attributes : Attributes) : Except Fault Value :=
  match attributes.get? key with
  | some value => .ok value
  | none => .error .missingKey

/-- The kind of token that an attribute tree describes. -/
def tokenKind? (attributes : Attributes) : Except Fault (Option TokenKind) := do
  match ← attributes.need "type" with
  | .int n => pure (TokenKind.ofCode? n)
  | _ => pure none

/-- Whether the token can name a property after a dot. -/
def isName (attributes : Attributes) : Except Fault Bool := do
  return (← attributes.tokenKind?).any TokenKind.isName

/-- The number under a key, or zero. -/
def natAt (attributes : Attributes) (key : String) : Nat :=
  match attributes.get? key with
  | some (.int n) => n.toNat
  | _ => 0

/-- The text under a key, or none of it. -/
def textAt (attributes : Attributes) (key : String) : Text :=
  ((attributes.get? key).map Value.shown).getD []

def isSet (attributes : Attributes) (key : String) : Bool :=
  (attributes.get? key).any Value.isPresent

/-- How tightly the token binds as a binary operator; zero if it is none. -/
def binaryPrecedence (attributes : Attributes) (allowIn : Bool) : Except Fault Nat := do
  let kind ← attributes.tokenKind?
  if kind = some .punctuator || kind = some .keyword then
    match ← attributes.need "value" with
    | .text t =>
      if t = Text.ofString "in" && !allowIn then pure 0
      else pure (((BinaryOperator.ofText? t).map (·.precedence)).getD 0)
    | .list _ | .record _ => throw .wrongType
    | _ => pure 0
  else pure 0

/-- The text of a template piece. -/
def templateText : Value → Except Fault Text
  | .record attributes => Value.shown <$> Attributes.need "raw" attributes
  | _ => .error .wrongType

/-- What a complaint shows of the token. -/
def shown (attributes : Attributes) (kind : Option TokenKind) : Except Fault Text :=
  if kind = some .template then do templateText (← attributes.need "value")
  else pure ((attributes.get? "value").getD .null).shown

/-- The line of the token, if one is given; a place in the line has to come with it. -/
def line? (attributes : Attributes) : Except Fault (Option Nat) :=
  match attributes.get? "lineNumber" with
  | some (.int n) =>
    if n = 0 then pure none
    else do
      let _ ← attributes.need "start"
      pure (some n.toNat)
  | _ => pure none

/-- The token as the subject of a complaint; `worded` tells whether the complaint has words. -/
def culprit (attributes : Attributes) (worded : Bool) : Except Fault Culprit := do
  let kind ← attributes.tokenKind?
  let _ ← if !worded && kind = some .keyword then attributes.need "value" else pure .null
  let shown ← attributes.shown kind
  let line ← attributes.line?
  pure { kind, shown, line }

end Attributes

namespace Token

/-- The number that is the value of a token. -/
def number? : Option Value → Option Number
  | some (.int n) => some (.integer n.toNat)
  | some (.double bits) => some (.double bits)
  | _ => none

/-- A piece of a template from its attributes. -/
def template? (attributes : Attributes) : Option Lexeme :=
  match attributes.get? "value" with
  | some (.record parts) =>
    some (.template (Attributes.textAt parts "cooked") (Attributes.textAt parts "raw")
      (attributes.isSet "head") (attributes.isSet "tail"))
  | _ => none

/-- What was read, from the attributes of a token of the given kind. -/
def lexeme? (attributes : Attributes) (kind : TokenKind) : Option Lexeme :=
  let spelled := attributes.textAt "value"
  match kind with
  | .booleanLiteral => some (.boolean (spelled = Lexeme.booleanText true))
  | .endOfSource => some .endOfSource
  | .identifier => some (.identifier spelled)
  | .keyword => ((Keyword.ofText? spelled).or (Keyword.ofStrictText? spelled)).map .keyword
  | .nullLiteral => some .null
  | .numericLiteral => (number? (attributes.get? "value")).map .numeric
  | .punctuator => (Punctuator.ofText? spelled).map .punctuator
  | .stringLiteral => some (.string spelled (attributes.isSet "octal"))
  | .regularExpression => none
  | .template => template? attributes

/-- A token from its attributes. -/
def ofAttributes? (attributes : Attributes) : Option Token := do
  let kind ← attributes.tokenKind?.toOption.join
  let lexeme ← lexeme? attributes kind
  some
    { lexeme
      raw := (attributes.get? "raw").map Value.shown
      lineNumber := attributes.natAt "lineNumber"
      lineStart := match attributes.get? "lineStart" with
        | some (.int n) => some n.toNat
        | _ => none
      start := attributes.natAt "start"
      stop := attributes.natAt "end" }

end Token

namespace Parser

/-- The complaint about a token given as an attribute tree. An absent one stands for illegal
characters. -/
def complaintAbout (p : Parser) (token : Value) (words : Option Text) : Except Fault Fault :=
  if token.isPresent then
    match token with
    | .record attributes => do
      let culprit ← Attributes.culprit attributes words.isSome
      pure (p.complaint (some culprit) words)
    | .node _ => .error .missingAttribute
    | _ => .error .wrongType
  else pure (p.complaint none words)

end Parser

end EcmaScript
