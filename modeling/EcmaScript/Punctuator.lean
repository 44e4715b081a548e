import EcmaScript.Text

/-!
Punctuators and the longest one that stands at a place of the source.
-/

namespace EcmaScript

inductive Punctuator where
  | openBrace | closeBrace | openParen | closeParen | openBracket | closeBracket
  | dot | ellipsis | semicolon | comma | colon | question | tilde | arrow
  | less | greater | lessEqual | greaterEqual | equal | notEqual | strictEqual | strictNotEqual
  | plus | minus | star | slash | percent | increment | decrement
  | shiftLeft | shiftRight | shiftRightZero | and | or | xor | not | andAnd | orOr
  | assign | plusAssign | minusAssign | starAssign | slashAssign | percentAssign
  | shiftLeftAssign | shiftRightAssign | shiftRightZeroAssign | andAssign | orAssign | xorAssign
  deriving DecidableEq, Repr

namespace Punctuator

def spelling : Punctuator → String
  | openBrace => "\x7b"
  | closeBrace => "\x7d"
  | openParen => "("
  | closeParen => ")"
  | openBracket => "["
  | closeBracket => "]"
  | dot => "."
  | ellipsis => "..."
  | semicolon => ";"
  | comma => ","
  | colon => ":"
  | question => "?"
  | tilde => "~"
  | arrow => "=>"
  | less => "<"
  | greater => ">"
  | lessEqual => "<="
  | greaterEqual => ">="
  | equal => "=="
  | notEqual => "!="
  | strictEqual => "==="
  | strictNotEqual => "!=="
  | plus => "+"
  | minus => "-"
  | star => "*"
  | slash => "/"
  | percent => "%"
  | increment => "++"
  | decrement => "--"
  | shiftLeft => "<<"
  | shiftRight => ">>"
  | shiftRightZero => ">>>"
  | and => "&"
  | or => "|"
  | xor => "^"
  | not => "!"
  | andAnd => "&&"
  | orOr => "||"
  | assign => "="
  | plusAssign => "+="
  | minusAssign => "-="
  | starAssign => "*="
  | slashAssign => "/="
  | percentAssign => "%="
  | shiftLeftAssign => "<<="
  | shiftRightAssign => ">>="
  | shiftRightZeroAssign => ">>>="
  | andAssign => "&="
  | orAssign => "|="
  | xorAssign => "^="

def text (mark : Punctuator) : Text :=
  Text.ofString mark.spelling

/-- The punctuators that a source can hold, longer ones first. The ellipsis is not among them: its
dots are read one by one. -/
def scanned : List Punctuator :=
  [shiftRightZeroAssign,
   strictEqual, strictNotEqual, shiftRightZero, shiftLeftAssign, shiftRightAssign,
   andAnd, orOr, equal, notEqual, plusAssign, minusAssign, starAssign, slashAssign, increment,
   decrement, shiftLeft, shiftRight, andAssign, orAssign, xorAssign, percentAssign, lessEqual,
   greaterEqual, arrow,
   openBrace, closeBrace, dot, openParen, closeParen, semicolon, comma, openBracket, closeBracket,
   colon, question, tilde, less, greater, assign, not, plus, minus, star, percent, and, or, xor,
   slash]

def table : List (Text × Punctuator) :=
  (ellipsis :: scanned).map fun mark => (mark.text, mark)

def scannedTable : List (Text × Punctuator) :=
  scanned.map fun mark => (mark.text, mark)

def ofText? (t : Text) : Option Punctuator :=
  table.lookup t

/-- The longest punctuator that the given text starts with. -/
def longest? (ahead : Text) : Option Punctuator :=
  (scannedTable.find? fun entry => entry.1.isPrefixOf ahead).map Prod.snd

/-- What an expression may follow directly. -/
def beforeExpression : List String :=
  ["(", "\x7b", "[", "in", "typeof", "instanceof", "new", "return", "case", "delete", "throw",
   "void", "=", "+=", "-=", "*=", "/=", "%=", "<<=", ">>=", ">>>=", "&=", "|=", "^=", ",", "+", "-",
   "*", "/", "%", "++", "--", "<<", ">>", ">>>", "&", "|", "^", "!", "~", "&&", "||", "?", ":",
   "===", "==", ">=", "<=", "<", ">", "!=", "!=="]

end Punctuator

end EcmaScript
