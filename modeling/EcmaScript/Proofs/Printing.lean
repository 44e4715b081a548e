import EcmaScript.Node
import EcmaScript.Token

/-!
Expressions on their own, and how they are written. An `Expression` can only hold what an expression
of the language can: the operand of an update and the left-hand side of an assignment are targets, a
name is no reserved word, a sequence has two members at least. It is printed with every
subexpression in parentheses and one blank between any two pieces, and it has a syntax tree of its
own, both by recursion on the expression alone.
-/

namespace EcmaScript

open Character List

/-! ### Words and literals -/

def isAsciiLetter (c : CodePoint) : Bool :=
  (0x41 ≤ c && c ≤ 0x5A) || (0x61 ≤ c && c ≤ 0x7A)

/-- A word of ASCII letters. Any word can name a property. -/
structure Word where
  text : Text
  nonempty : text ≠ []
  letters : ∀ c ∈ text, isAsciiLetter c = true

/-- A word that is free for a variable. -/
structure Name extends Word where
  notKeyword : text.isKeyword = false
  notNull : text ≠ Text.ofString "null"
  notBoolean : text ≠ Text.ofString "true" ∧ text ≠ Text.ofString "false"

/-- What can stand between double quotes without any escape. -/
structure Quoted where
  text : Text
  plain : ∀ c ∈ text, c ≠ 0x22 ∧ c ≠ 0x5C ∧ isLineTerminator c = false

def Quoted.written (string : Quoted) : Text :=
  0x22 :: string.text ++ [0x22]

structure HexDigit where
  value : Fin 16
  upper : Bool

def HexDigit.code (digit : HexDigit) : CodePoint :=
  if digit.value.val < 10 then 0x30 + digit.value.val
  else if digit.upper then 0x37 + digit.value.val
  else 0x57 + digit.value.val

structure HexNumber where
  upper : Bool
  digits : List HexDigit
  nonempty : digits ≠ []

namespace HexNumber

def value (number : HexNumber) : Nat :=
  number.digits.foldl (fun value digit => 16 * value + digit.value.val) 0

def written (number : HexNumber) : Text :=
  0x30 :: (if number.upper then 0x58 else 0x78) :: number.digits.map HexDigit.code

end HexNumber

/-! ### Expressions -/

mutual

/-- What can be assigned: a variable or a member. -/
inductive Target where
  | name (name : Name)
  | dotted (object : Expression) (member : Word)
  | computed (object key : Expression)

inductive Expression where
  | target (target : Target)
  | string (string : Quoted)
  | hexadecimal (number : HexNumber)
  | boolean (value : Bool)
  | null
  | this
  | call (callee : Expression) (args : List Expression)
  | new (callee : Expression) (args : List Expression)
  | unary (operator : UnaryOperator) (argument : Expression)
  | update (operator : UpdateOperator) (prefixed : Bool) (argument : Target)
  | binary (operator : BinaryOperator) (left right : Expression)
  | conditional (test consequent alternate : Expression)
  | assignment (operator : AssignmentOperator) (left : Target) (right : Expression)
  | sequence (first second : Expression) (rest : List Expression)
  | array (elements : List (Option Expression))
  | object (properties : List (Word × Expression))

end

def Expression.isTarget : Expression → Bool
  | .target _ => true
  | _ => false

/-! ### Trees -/

mutual

def Target.toNode : Target → Node
  | .name name => .identifier name.text
  | .dotted object member => .memberExpression false object.toNode (.identifier member.text)
  | .computed object key => .memberExpression true object.toNode key.toNode

def Expression.toNode : Expression → Node
  | .target target => target.toNode
  | .string string => .literal (.string string.text) string.written
  | .hexadecimal number => .literal (.number (.integer number.value)) number.written
  | .boolean value => .literal (.boolean value) (Lexeme.booleanText value)
  | .null => .literal .null (Text.ofString "null")
  | .this => .thisExpression
  | .call callee args => .callExpression callee.toNode (Expression.toNodes args)
  | .new callee args => .newExpression callee.toNode (Expression.toNodes args)
  | .unary operator argument => .unaryExpression operator argument.toNode
  | .update operator prefixed argument => .updateExpression operator prefixed argument.toNode
  | .binary operator left right => .binaryExpression operator left.toNode right.toNode
  | .conditional test consequent alternate =>
    .conditionalExpression test.toNode consequent.toNode alternate.toNode
  | .assignment operator left right => .assignmentExpression operator left.toNode right.toNode
  | .sequence first second rest =>
    .sequenceExpression (first.toNode :: second.toNode :: Expression.toNodes rest)
  | .array elements => .arrayExpression (Expression.toElements elements)
  | .object properties => .objectExpression (Expression.toProperties properties)

def Expression.toNodes : List Expression → List Node
  | [] => []
  | first :: rest => first.toNode :: Expression.toNodes rest

def Expression.toElements : List (Option Expression) → List (Option Node)
  | [] => []
  | none :: rest => none :: Expression.toElements rest
  | some first :: rest => some first.toNode :: Expression.toElements rest

def Expression.toProperties : List (Word × Expression) → List Node
  | [] => []
  | (key, value) :: rest =>
    .property .init (.identifier key.text) false value.toNode false false :: Expression.toProperties rest

end

/-! ### Pieces of text -/

/-- What is separated by blanks. -/
inductive Piece where
  | mark (mark : Punctuator)
  | keyword (word : Keyword)
  | word (word : Word)
  | boolean (value : Bool)
  | null
  | quoted (string : Quoted)
  | hexadecimal (number : HexNumber)

def Piece.text : Piece → Text
  | .mark punctuator => punctuator.text
  | .keyword reserved => reserved.text
  | .word letters => letters.text
  | .boolean value => Lexeme.booleanText value
  | .null => Text.ofString "null"
  | .quoted string => string.written
  | .hexadecimal number => number.written

def UnaryOperator.piece : UnaryOperator → Piece
  | .plus => .mark .plus
  | .minus => .mark .minus
  | .complement => .mark .tilde
  | .not => .mark .not
  | .delete => .keyword .delete
  | .void => .keyword .void
  | .typeof => .keyword .typeof

def UpdateOperator.piece : UpdateOperator → Piece
  | .increment => .mark .increment
  | .decrement => .mark .decrement

def BinaryOperator.piece : BinaryOperator → Piece
  | .logicalOr => .mark .orOr
  | .logicalAnd => .mark .andAnd
  | .bitOr => .mark .or
  | .bitXor => .mark .xor
  | .bitAnd => .mark .and
  | .equal => .mark .equal
  | .notEqual => .mark .notEqual
  | .strictEqual => .mark .strictEqual
  | .strictNotEqual => .mark .strictNotEqual
  | .less => .mark .less
  | .greater => .mark .greater
  | .lessEqual => .mark .lessEqual
  | .greaterEqual => .mark .greaterEqual
  | .instanceof => .keyword .instanceof
  | .in_ => .keyword .in_
  | .shiftLeft => .mark .shiftLeft
  | .shiftRight => .mark .shiftRight
  | .shiftRightZero => .mark .shiftRightZero
  | .add => .mark .plus
  | .subtract => .mark .minus
  | .multiply => .mark .star
  | .divide => .mark .slash
  | .remainder => .mark .percent

def AssignmentOperator.piece : AssignmentOperator → Piece
  | .assign => .mark .assign
  | .multiply => .mark .starAssign
  | .divide => .mark .slashAssign
  | .remainder => .mark .percentAssign
  | .add => .mark .plusAssign
  | .subtract => .mark .minusAssign
  | .shiftLeft => .mark .shiftLeftAssign
  | .shiftRight => .mark .shiftRightAssign
  | .shiftRightZero => .mark .shiftRightZeroAssign
  | .bitAnd => .mark .andAssign
  | .bitXor => .mark .xorAssign
  | .bitOr => .mark .orAssign

def inParens (pieces : List Piece) : List Piece :=
  .mark .openParen :: (pieces ++ [Piece.mark .closeParen])

/-- A comma, if anything comes after it. -/
def commaBefore {α : Type} (rest : List α) : List Piece :=
  if rest.isEmpty then [] else [.mark .comma]

mutual

def Target.pieces : Target → List Piece
  | .name name => [.word name.toWord]
  | .dotted object member => inParens object.pieces ++ [.mark .dot, .word member]
  | .computed object key =>
    inParens object.pieces ++ .mark .openBracket :: (inParens key.pieces ++ [.mark .closeBracket])

def Expression.pieces : Expression → List Piece
  | .target target => target.pieces
  | .string string => [.quoted string]
  | .hexadecimal number => [.hexadecimal number]
  | .boolean value => [.boolean value]
  | .null => [.null]
  | .this => [.keyword .this]
  | .call callee args => inParens callee.pieces ++ inParens (Expression.listPieces args)
  | .new callee args =>
    .keyword .new :: (inParens callee.pieces ++ inParens (Expression.listPieces args))
  | .unary operator argument => operator.piece :: inParens argument.pieces
  | .update operator true argument => operator.piece :: inParens argument.pieces
  | .update operator false argument => inParens argument.pieces ++ [operator.piece]
  | .binary operator left right => inParens left.pieces ++ operator.piece :: inParens right.pieces
  | .conditional test consequent alternate =>
    inParens test.pieces ++ .mark .question ::
      (inParens consequent.pieces ++ .mark .colon :: inParens alternate.pieces)
  | .assignment operator left right =>
    inParens left.pieces ++ operator.piece :: inParens right.pieces
  | .sequence first second rest =>
    inParens first.pieces ++ .mark .comma :: (inParens second.pieces ++ Expression.morePieces rest)
  | .array elements =>
    .mark .openBracket :: (Expression.elementPieces elements ++ [.mark .closeBracket])
  | .object properties =>
    .mark .openBrace :: (Expression.propertyPieces properties ++ [.mark .closeBrace])

def Expression.listPieces : List Expression → List Piece
  | [] => []
  | first :: rest => inParens first.pieces ++ Expression.morePieces rest

def Expression.morePieces : List Expression → List Piece
  | [] => []
  | next :: rest => .mark .comma :: (inParens next.pieces ++ Expression.morePieces rest)

def Expression.elementPieces : List (Option Expression) → List Piece
  | [] => []
  | none :: rest => .mark .comma :: Expression.elementPieces rest
  | some first :: rest =>
    inParens first.pieces ++ (commaBefore rest ++ Expression.elementPieces rest)

def Expression.propertyPieces : List (Word × Expression) → List Piece
  | [] => []
  | (key, value) :: rest =>
    .word key :: .mark .colon ::
      (inParens value.pieces ++ (commaBefore rest ++ Expression.propertyPieces rest))

end

/-- Pieces with one blank between any two of them. -/
def spell (pieces : List Piece) : Text :=
  [0x20].intercalate (pieces.map Piece.text)

def Expression.print (e : Expression) : Text :=
  spell e.pieces

/-! ### Pieces and their text -/

@[simp] theorem length_inParens (pieces : List Piece) : (inParens pieces).length = pieces.length + 2 := by
  simp [inParens]

theorem Target.pieces_ne_nil (target : Target) : target.pieces ≠ [] := by
  cases target <;> simp [Target.pieces, inParens]

namespace Expression

theorem pieces_ne_nil (e : Expression) : e.pieces ≠ [] := by
  cases e with
  | target target => simpa only [pieces] using target.pieces_ne_nil
  | update operator isPrefix target => cases isPrefix <;> simp [pieces, inParens]
  | _ => simp [pieces, inParens]

variable {e : Expression}

theorem length_le_morePieces {es : List Expression} (member : e ∈ es) :
    e.pieces.length + 2 ≤ (morePieces es).length := by
  induction es with
  | nil => cases member
  | cons first es ih =>
    simp only [morePieces, length_cons, length_append, length_inParens]
    rcases mem_cons.mp member with rfl | later
    · omega
    · have := ih later
      omega

theorem length_le_listPieces {es : List Expression} (member : e ∈ es) :
    e.pieces.length + 2 ≤ (listPieces es).length := by
  cases es with
  | nil => cases member
  | cons first es =>
    simp only [listPieces, length_append, length_inParens]
    rcases mem_cons.mp member with rfl | later
    · omega
    · have := length_le_morePieces later
      omega

theorem length_le_elementPieces {elements : List (Option Expression)}
    (member : some e ∈ elements) : e.pieces.length + 2 ≤ (elementPieces elements).length := by
  induction elements with
  | nil => cases member
  | cons first elements ih =>
    rcases mem_cons.mp member with rfl | later
    · simp [elementPieces]
    · have := ih later
      cases first <;> simp only [elementPieces, length_cons, length_append] <;> omega

theorem length_le_propertyPieces {key : Word}
    {properties : List (Word × Expression)} (member : (key, e) ∈ properties) :
    e.pieces.length + 2 ≤ (propertyPieces properties).length := by
  induction properties with
  | nil => cases member
  | cons first properties ih =>
    simp only [propertyPieces, length_cons, length_append, length_inParens]
    rcases mem_cons.mp member with rfl | later
    · dsimp only
      omega
    · have := ih later
      omega

end Expression

/-- Every piece but the first has a blank before it. -/
theorem spell_cons (piece : Piece) (pieces : List Piece) :
    spell (piece :: pieces) = piece.text ++ pieces.flatMap fun next => 0x20 :: next.text := by
  induction pieces generalizing piece with
  | nil => simp [spell]
  | cons next pieces ih =>
    have more := ih next
    simp only [spell, map_cons] at more
    simp [spell, intercalate_cons_cons, more]

example : (Expression.binary .add .this (.array [none, some .null])).print =
    Text.ofString "( this ) + ( [ , ( null ) ] )" := by
  decide

end EcmaScript
