import EcmaScript.Number
import EcmaScript.Operator

/-!
Tokens: what was read, how it was spelled, and where it stands.
-/

namespace EcmaScript

inductive TokenKind where
  | booleanLiteral | endOfSource | identifier | keyword | nullLiteral | numericLiteral | punctuator
  | stringLiteral | regularExpression | template
  deriving DecidableEq, Repr

namespace TokenKind

def all : List TokenKind :=
  [booleanLiteral, endOfSource, identifier, keyword, nullLiteral, numericLiteral, punctuator,
   stringLiteral, regularExpression, template]

def code : TokenKind → Nat
  | booleanLiteral => 1
  | endOfSource => 2
  | identifier => 3
  | keyword => 4
  | nullLiteral => 5
  | numericLiteral => 6
  | punctuator => 7
  | stringLiteral => 8
  | regularExpression => 9
  | template => 10

def name : TokenKind → String
  | booleanLiteral => "BooleanLiteral"
  | endOfSource => "EOF"
  | identifier => "Identifier"
  | keyword => "Keyword"
  | nullLiteral => "NullLiteral"
  | numericLiteral => "NumericLiteral"
  | punctuator => "Punctuator"
  | stringLiteral => "StringLiteral"
  | regularExpression => "RegularExpression"
  | template => "Template"

def ofCode? (n : Int) : Option TokenKind :=
  all.find? fun kind => (kind.code : Int) = n

/-- Whether a token of this kind can name a property after a dot. -/
def isName : TokenKind → Bool
  | booleanLiteral | identifier | keyword | nullLiteral => true
  | _ => false

end TokenKind

inductive Lexeme where
  | endOfSource
  | identifier (name : Text)
  | keyword (word : Keyword)
  | boolean (value : Bool)
  | null
  | numeric (value : Number)
  | string (value : Text) (octal : Bool)
  | punctuator (mark : Punctuator)
  | template (cooked raw : Text) (head tail : Bool)
  deriving DecidableEq, Repr

namespace Lexeme

def kind : Lexeme → TokenKind
  | endOfSource => .endOfSource
  | identifier _ => .identifier
  | keyword _ => .keyword
  | boolean _ => .booleanLiteral
  | null => .nullLiteral
  | numeric _ => .numericLiteral
  | string .. => .stringLiteral
  | punctuator _ => .punctuator
  | template .. => .template

def booleanText (value : Bool) : Text :=
  Text.ofString (if value then "true" else "false")

/-- A name as a token: a keyword, one of the literals `null`, `true` and `false`, or an
identifier. -/
def ofName (name : Text) : Lexeme :=
  match Keyword.ofText? name with
  | some word => keyword word
  | none =>
    if name = Text.ofString "null" then null
    else if name = booleanText true then boolean true
    else if name = booleanText false then boolean false
    else identifier name

/-- Strict code turns the names it reserves into keywords. -/
def inStrictCode : Lexeme → Lexeme
  | identifier name =>
    match Keyword.ofStrictText? name with
    | some word => keyword word
    | none => identifier name
  | lexeme => lexeme

/-- The name that a word spells where any word can be a name. -/
def name? : Lexeme → Option Text
  | identifier name => some name
  | keyword word => some word.text
  | boolean value => some (booleanText value)
  | null => some (Text.ofString "null")
  | _ => none

/-- What stands for the token in a complaint about it. -/
def shown : Lexeme → Text
  | identifier name => name
  | keyword word => word.text
  | boolean value => booleanText value
  | null => Text.ofString "null"
  | string value _ => value
  | punctuator mark => mark.text
  | template _ raw _ _ => raw
  | numeric _ | endOfSource => []

/-- Whether the token is of a kind and reads as the given text. -/
def reads (kind : TokenKind) (t : Text) (lexeme : Lexeme) : Bool :=
  lexeme.kind = kind && lexeme.shown = t

def binaryOperator? (allowIn : Bool) : Lexeme → Option BinaryOperator
  | punctuator mark => BinaryOperator.ofPunctuator? mark
  | keyword word => BinaryOperator.ofKeyword? allowIn word
  | _ => none

def assignmentOperator? : Lexeme → Option AssignmentOperator
  | punctuator mark => AssignmentOperator.ofPunctuator? mark
  | _ => none

def updateOperator? : Lexeme → Option UpdateOperator
  | punctuator mark => UpdateOperator.ofPunctuator? mark
  | _ => none

def unaryOperator? : Lexeme → Option UnaryOperator
  | punctuator mark => UnaryOperator.ofPunctuator? mark
  | keyword word => UnaryOperator.ofKeyword? word
  | _ => none

/-- Whether the token reads as an ellipsis, be it a punctuator or a string. -/
def isEllipsis : Lexeme → Bool
  | punctuator mark => mark = .ellipsis
  | string value _ => value = Punctuator.ellipsis.text
  | _ => false

/-- Whether the token can be the key of a property. -/
def startsPropertyName : Lexeme → Bool
  | identifier _ | string .. | boolean _ | null | numeric _ | keyword _ => true
  | punctuator mark => mark = .openBracket
  | endOfSource | template .. => false

end Lexeme

/-- A token. `raw` is the spelling of a word, number or string; `precedence` is set once the token
has been taken for a binary operator. -/
structure Token where
  lexeme : Lexeme
  raw : Option Text := none
  lineNumber : Nat
  lineStart : Option Nat
  start : Nat
  stop : Nat
  precedence : Option Nat := none
  deriving DecidableEq, Repr

end EcmaScript
