import EcmaScript.Parser

/-!
Complaints: the fault that reports a token or a place in the program.
-/

namespace EcmaScript

/-- The part of a token that a complaint about it needs. -/
structure Culprit where
  kind : Option TokenKind
  shown : Text
  line : Option Nat
  deriving DecidableEq, Repr

namespace Culprit

def ofToken (token : Token) : Culprit :=
  { kind := some token.lexeme.kind
    shown := token.lexeme.shown
    line := if token.lineNumber = 0 then none else some token.lineNumber }

/-- What is wrong with a token where none of its kind is expected. -/
def message (strict : Bool) (c : Culprit) : Message :=
  match c.kind with
  | some .endOfSource => .unexpectedEnd
  | some .identifier => .unexpectedIdentifier
  | some .numericLiteral => .unexpectedNumber
  | some .stringLiteral => .unexpectedString
  | some .template => .unexpectedTemplate
  | some .keyword =>
    if c.shown.isFutureReserved then .unexpectedReserved
    else if strict && c.shown.isStrictReserved then .strictReservedWord
    else .unexpectedToken
  | _ => .unexpectedToken

end Culprit

namespace Parser

/-- The complaint about a token, or about illegal characters when there is none, in the given words
or the usual ones. -/
def complaint (p : Parser) (culprit : Option Culprit) (words : Option Text) : Fault :=
  match culprit with
  | some c =>
    .malformed (c.line.or p.troubleLine)
      (Text.fill c.shown (words.getD (c.message p.isStrict).text))
  | none =>
    .malformed p.troubleLine
      (Text.fill (Text.ofString "ILLEGAL") (words.getD Message.unexpectedToken.text))

/-- A complaint about the construct that the last token ended. -/
def complaintHere (p : Parser) (words : Text) : Fault :=
  .malformed (p.last.map (·.lineNumber)) words

/-- The fault of a scanner as a fault of the parser that ran it. -/
def located (p : Parser) : ScanFault → Fault
  | .illegal => p.complaint none none
  | .unterminatedRegExp => p.complaint none (some Message.unterminatedRegExp.text)
  | .templateOctal => p.complaintHere Message.templateOctalLiteral.text
  | .pastEnd => .pastEnd
  | .noOpenBrace => .noOpenBrace
  | .noContext => .noContext
  | .notNumeric =>
    .precondition
      (Text.ofString "Numeric literal must start with a decimal digit or a decimal point")
  | .notString => .precondition (Text.ofString "String literal must starts with a quote")
  | .notRegExp =>
    .precondition (Text.ofString "Regular expression literal must start with a slash")
  | .noNumber => .noNumber
  | .exhausted => .exhausted

end Parser

namespace Parse

/-- Complains about a token, or about illegal characters when there is none. -/
def complainOf {α : Type} (token : Option Token) (message : Option Message) : ParseM α := do
  throw ((← get).complaint (token.map .ofToken) (message.map Message.text))

def unexpectedAs {α : Type} (token : Token) (message : Option Message) : ParseM α :=
  complainOf (some token) message

def unexpected {α : Type} (token : Token) : ParseM α :=
  unexpectedAs token none

def illegal {α : Type} : ParseM α :=
  complainOf none none

/-- Complains about the construct just read, with the values put in the places of the message. There
have to be as many places as values. -/
@[irreducible]
def complain {α : Type} (message : Message) (values : List Text) : ParseM α := do
  match Text.formatExactly? values message.text with
  | some words => throw ((← get).complaintHere words)
  | none => throw .wrongType

def unsupported {α : Type} (feature : String) : ParseM α :=
  throw (.unsupported (Text.ofString feature))

/-- Runs a scanner at the cursor. -/
def scan {α : Type} (scanner : Source → ScanM α) : ParseM α := do
  let src ← source
  fun p =>
    match scanner src p.cursor with
    | .ok a cursor => .ok a { p with cursor }
    | .error fault cursor =>
      let p := { p with cursor }
      .error (p.located fault) p

end Parse

end EcmaScript
