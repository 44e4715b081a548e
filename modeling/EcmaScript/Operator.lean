import EcmaScript.Keyword
import EcmaScript.Punctuator

/-!
Operators of expressions, their spelling, and how tightly the binary ones bind.
-/

namespace EcmaScript

inductive BinaryOperator where
  | logicalOr | logicalAnd | bitOr | bitXor | bitAnd | equal | notEqual | strictEqual
  | strictNotEqual | less | greater | lessEqual | greaterEqual | instanceof | in_ | shiftLeft
  | shiftRight | shiftRightZero | add | subtract | multiply | divide | remainder
  deriving DecidableEq, Repr

namespace BinaryOperator

def spelling : BinaryOperator → String
  | logicalOr => "||"
  | logicalAnd => "&&"
  | bitOr => "|"
  | bitXor => "^"
  | bitAnd => "&"
  | equal => "=="
  | notEqual => "!="
  | strictEqual => "==="
  | strictNotEqual => "!=="
  | less => "<"
  | greater => ">"
  | lessEqual => "<="
  | greaterEqual => ">="
  | instanceof => "instanceof"
  | in_ => "in"
  | shiftLeft => "<<"
  | shiftRight => ">>"
  | shiftRightZero => ">>>"
  | add => "+"
  | subtract => "-"
  | multiply => "*"
  | divide => "/"
  | remainder => "%"

/-- A larger number binds tighter. -/
def precedence : BinaryOperator → Nat
  | logicalOr => 1
  | logicalAnd => 2
  | bitOr => 3
  | bitXor => 4
  | bitAnd => 5
  | equal | notEqual | strictEqual | strictNotEqual => 6
  | less | greater | lessEqual | greaterEqual | instanceof | in_ => 7
  | shiftLeft | shiftRight | shiftRightZero => 8
  | add | subtract => 9
  | multiply | divide | remainder => 11

def isLogical : BinaryOperator → Bool
  | logicalOr | logicalAnd => true
  | _ => false

def all : List BinaryOperator :=
  [logicalOr, logicalAnd, bitOr, bitXor, bitAnd, equal, notEqual, strictEqual, strictNotEqual, less,
   greater, lessEqual, greaterEqual, instanceof, in_, shiftLeft, shiftRight, shiftRightZero, add,
   subtract, multiply, divide, remainder]

def ofText? (t : Text) : Option BinaryOperator :=
  all.find? fun op => Text.ofString op.spelling = t

def ofPunctuator? : Punctuator → Option BinaryOperator
  | .orOr => some logicalOr
  | .andAnd => some logicalAnd
  | .or => some bitOr
  | .xor => some bitXor
  | .and => some bitAnd
  | .equal => some equal
  | .notEqual => some notEqual
  | .strictEqual => some strictEqual
  | .strictNotEqual => some strictNotEqual
  | .less => some less
  | .greater => some greater
  | .lessEqual => some lessEqual
  | .greaterEqual => some greaterEqual
  | .shiftLeft => some shiftLeft
  | .shiftRight => some shiftRight
  | .shiftRightZero => some shiftRightZero
  | .plus => some add
  | .minus => some subtract
  | .star => some multiply
  | .slash => some divide
  | .percent => some remainder
  | _ => none

/-- The keyword `in` is an operator only where the context allows it. -/
def ofKeyword? (allowIn : Bool) : Keyword → Option BinaryOperator
  | .instanceof => some instanceof
  | .in_ => if allowIn then some in_ else none
  | _ => none

end BinaryOperator

inductive AssignmentOperator where
  | assign | multiply | divide | remainder | add | subtract | shiftLeft | shiftRight
  | shiftRightZero | bitAnd | bitXor | bitOr
  deriving DecidableEq, Repr

namespace AssignmentOperator

def spelling : AssignmentOperator → String
  | assign => "="
  | multiply => "*="
  | divide => "/="
  | remainder => "%="
  | add => "+="
  | subtract => "-="
  | shiftLeft => "<<="
  | shiftRight => ">>="
  | shiftRightZero => ">>>="
  | bitAnd => "&="
  | bitXor => "^="
  | bitOr => "|="

def ofPunctuator? : Punctuator → Option AssignmentOperator
  | .assign => some assign
  | .starAssign => some multiply
  | .slashAssign => some divide
  | .percentAssign => some remainder
  | .plusAssign => some add
  | .minusAssign => some subtract
  | .shiftLeftAssign => some shiftLeft
  | .shiftRightAssign => some shiftRight
  | .shiftRightZeroAssign => some shiftRightZero
  | .andAssign => some bitAnd
  | .xorAssign => some bitXor
  | .orAssign => some bitOr
  | _ => none

end AssignmentOperator

inductive UpdateOperator where
  | increment | decrement
  deriving DecidableEq, Repr

namespace UpdateOperator

def spelling : UpdateOperator → String
  | increment => "++"
  | decrement => "--"

def ofPunctuator? : Punctuator → Option UpdateOperator
  | .increment => some increment
  | .decrement => some decrement
  | _ => none

end UpdateOperator

inductive UnaryOperator where
  | plus | minus | complement | not | delete | void | typeof
  deriving DecidableEq, Repr

namespace UnaryOperator

def spelling : UnaryOperator → String
  | plus => "+"
  | minus => "-"
  | complement => "~"
  | not => "!"
  | delete => "delete"
  | void => "void"
  | typeof => "typeof"

def ofPunctuator? : Punctuator → Option UnaryOperator
  | .plus => some plus
  | .minus => some minus
  | .tilde => some complement
  | .not => some not
  | _ => none

def ofKeyword? : Keyword → Option UnaryOperator
  | .delete => some delete
  | .void => some void
  | .typeof => some typeof
  | _ => none

end UnaryOperator

end EcmaScript
