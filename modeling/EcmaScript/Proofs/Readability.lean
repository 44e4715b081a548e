import EcmaScript.Proofs.Constructs

/-!
Every expression is read back from its pieces in parentheses. A reader of some depth reads all
expressions that have no more pieces than that, since each part of an expression is read one level
down at most and has fewer pieces than the whole. The induction is on the expression.
-/

namespace EcmaScript

open Parse Grammar List Lexeme

variable {src : Source}

/-! ### Expressions -/

/-- The expression is read back in parentheses, if the reader is deep enough. -/
def Readable (src : Source) (e : Expression) : Prop :=
  ∀ d, e.pieces.length ≤ d →
    Parses src endsPrimary (group (readerOf d)) (inParens e.pieces) e.toNode e.isTarget

namespace Readable

variable {e : Expression} {d : Nat}

section

variable (readable : Readable src e)
include readable

theorem head (enough : e.pieces.length ≤ d) :
    Encloses src endsPrimary (Grammar.head (readerOf d)) e :=
  (readable d enough).primary_group.head (by nofun) (by nofun)

theorem member (enough : e.pieces.length ≤ d) :
    Encloses src endsMember (leftHandSideAllowCall (readerOf d)) e :=
  (readable.head enough).leftHandSideAllowCall

theorem operand (enough : e.pieces.length ≤ d) :
    Encloses src endsOperand (unaryExpression (readerOf d)) e :=
  (readable.member enough).postfixExpression.unaryExpression rfl rfl

/-- What a reader makes of the expression inside of another one. -/
theorem nested (enough : e.pieces.length < d) :
    Encloses src endsAssignment (readerOf d .assignment) e := by
  cases d with
  | zero => omega
  | succ d => exact (readable.operand (Nat.le_of_lt_succ enough)).ofUnary

theorem nestedOperand (enough : e.pieces.length < d) :
    Encloses src endsOperand (readerOf d .unary) e := by
  cases d with
  | zero => omega
  | succ d => exact readable.operand (Nat.le_of_lt_succ enough)

theorem nestedCallee (enough : e.pieces.length < d) :
    Encloses src endsCallee (readerOf d .leftHandSide) e := by
  cases d with
  | zero => omega
  | succ d => exact (readable.head (Nat.le_of_lt_succ enough)).leftHandSide

end

theorem intro {piece : Piece} {pieces : List Piece} (starts : e.pieces = piece :: pieces)
    (notClosed : piece.lexeme ≠ .punctuator .closeParen) (noRest : piece.lexeme ≠ .punctuator .ellipsis)
    (inner : ∀ d, e.pieces.length ≤ d + 1 → Parses src endsAssignment
      (assignmentExpression (readerOf d)) e.pieces e.toNode e.isTarget) : Readable src e := by
  intro d enough
  cases d with
  | zero =>
    -- Depth zero reads nothing, but an expression has at least one piece.
    simp [starts] at enough
  | succ d =>
    have reads := inner d enough
    rw [starts] at reads ⊢
    exact Parses.group reads notClosed noRest

end Readable

/-- The lexeme begins a primary expression. -/
def Lexeme.startsPrimary (lexeme : Lexeme) : Bool :=
  lexeme ≠ punctuator .closeParen && lexeme ≠ punctuator .ellipsis && lexeme ≠ keyword .super &&
    lexeme ≠ keyword .new && lexeme.updateOperator? = none && lexeme.unaryOperator? = none

namespace Readable

open Expression

variable {e left right : Expression} {d : Nat}

theorem ofPrimary {piece : Piece} {pieces : List Piece} (starts : e.pieces = piece :: pieces)
    (first : piece.lexeme.startsPrimary = true)
    (primary : ∀ d, e.pieces.length ≤ d + 1 → Parses src endsPrimary (primary (readerOf d))
      e.pieces e.toNode e.isTarget) : Readable src e := by
  simp only [startsPrimary, Bool.and_eq_true, decide_eq_true_eq] at first
  obtain ⟨⟨⟨⟨⟨notClosed, noRest⟩, notSuper⟩, notNew⟩, noUpdate⟩, noUnary⟩ := first
  refine .intro starts notClosed noRest fun d enough => ?_
  have reads := primary d enough
  rw [starts] at reads ⊢
  exact Parses.ofMember (c := {}) (reads.head notSuper notNew).leftHandSideAllowCall noUpdate noUnary

theorem name (name : Name) : Readable src (.target (.name name)) := by
  refine .ofPrimary rfl ?_ fun d _ => Parses.name name
  rw [show (Piece.word name.toWord).lexeme = .ofName name.text from rfl, name.ofName_text]
  rfl

theorem string (string : Quoted) : Readable src (.string string) :=
  .ofPrimary rfl rfl fun _ _ => Parses.string string

theorem hexadecimal (number : HexNumber) : Readable src (.hexadecimal number) :=
  .ofPrimary rfl rfl fun _ _ => Parses.hexadecimal number

theorem boolean (value : Bool) : Readable src (.boolean value) :=
  .ofPrimary rfl (by cases value <;> decide) fun _ _ => Parses.boolean value

theorem null : Readable src .null :=
  .ofPrimary rfl (by decide) fun _ _ => Parses.null

theorem this : Readable src .this :=
  .ofPrimary rfl (by decide) fun _ _ => Parses.this

theorem array {elements : List (Option Expression)}
    (readable : ∀ e, some e ∈ elements → Readable src e) : Readable src (.array elements) := by
  refine .ofPrimary rfl rfl fun d enough => Parses.array fun e member => ?_
  have short := length_le_elementPieces member
  simp only [pieces, length_cons, length_append] at enough
  exact (readable e member).nested (by omega)

theorem object {properties : List (Word × Expression)}
    (readable : ∀ key e, (key, e) ∈ properties → Readable src e) : Readable src (.object properties) := by
  refine .ofPrimary rfl rfl fun d enough => Parses.object fun key e member => ?_
  have short := length_le_propertyPieces member
  simp only [pieces, length_cons, length_append] at enough
  exact (readable key e member).nested (by omega)

/-- An expression that starts with another one in parentheses. -/
theorem ofLeft {rest : List Piece} (starts : e.pieces = inParens left.pieces ++ rest)
    (reads : ∀ d, e.pieces.length ≤ d + 1 → Parses src endsAssignment
      (assignmentExpression (readerOf d)) e.pieces e.toNode e.isTarget) : Readable src e :=
  .intro (starts.trans (inParens_append ..)) (by nofun) (by nofun) reads

theorem dotted (object : Readable src left) (member : Word) :
    Readable src (.target (.dotted left member)) := by
  refine .ofLeft rfl fun d enough => ?_
  simp only [pieces, Target.pieces, length_append, length_inParens] at enough
  exact Parses.ofMember ((object.head (by omega)).dotted member) rfl rfl

theorem computed (object : Readable src left) (key : Readable src right) :
    Readable src (.target (.computed left right)) := by
  refine .ofLeft rfl fun d enough => ?_
  simp only [pieces, Target.pieces, length_append, length_cons,
    length_inParens] at enough
  exact Parses.ofMember ((object.head (by omega)).computed (key.nested (by omega))) rfl rfl

theorem call {args : List Expression} (callee : Readable src left)
    (readable : ∀ e ∈ args, Readable src e) : Readable src (.call left args) := by
  refine .ofLeft rfl fun d enough => ?_
  simp only [pieces, length_append, length_inParens] at enough
  refine Parses.ofMember ((callee.head (by omega)).call fun e member => ?_) rfl rfl
  have short := length_le_listPieces member
  exact (readable e member).nested (by omega)

theorem new {args : List Expression} (callee : Readable src left)
    (readable : ∀ e ∈ args, Readable src e) : Readable src (.new left args) := by
  have reserved : (Piece.keyword .new).lexeme = .keyword .new := by decide
  refine .intro rfl (by simp [reserved]) (by simp [reserved]) fun d enough => ?_
  simp only [pieces, length_append, length_cons, length_inParens] at enough
  have reads := Parses.new (callee.nestedCallee (d := d) (by omega)) fun e member =>
    (readable e member).nested (by have := length_le_listPieces member; omega)
  exact Parses.ofMember (c := {}) reads.leftHandSideAllowCall (by rw [reserved]; rfl)
    (by rw [reserved]; rfl)

theorem unary {operator : UnaryOperator} (argument : Readable src e) :
    Readable src (.unary operator e) := by
  refine .intro rfl ?_ ?_ fun d enough => ?_
  · cases operator <;> decide
  · cases operator <;> decide
  · simp only [pieces, length_cons, length_inParens] at enough
    exact (Parses.unary operator (argument.nestedOperand (by omega))).ofUnary

variable {target : Target}

theorem prefixed {operator : UpdateOperator}
    (argument : Readable src (.target target)) : Readable src (.update operator true target) := by
  refine .intro rfl ?_ ?_ fun d enough => ?_
  · cases operator <;> nofun
  · cases operator <;> nofun
  · simp only [pieces, length_cons, length_inParens] at enough
    exact (Parses.prefixed operator (argument.nestedOperand (by
      simp only [pieces]; omega))).ofUnary

theorem postfixed {operator : UpdateOperator}
    (argument : Readable src (.target target)) : Readable src (.update operator false target) := by
  have starts : (Expression.update operator false target).pieces =
      inParens (Expression.target target).pieces ++ [operator.piece] := rfl
  refine .ofLeft starts fun d enough => ?_
  rw [starts, length_append, length_inParens] at enough
  rw [starts]
  exact (Parses.postfixed operator (argument.member (by omega))).unaryExpression rfl rfl |>.ofUnary

theorem binary {operator : BinaryOperator} (first : Readable src left) (second : Readable src right) :
    Readable src (.binary operator left right) := by
  refine .ofLeft rfl fun d enough => ?_
  simp only [pieces, length_append, length_cons, length_inParens] at enough
  exact Parses.ofBinary (c := {}) ((first.operand (by omega)).binary operator (second.operand (by omega)))

theorem conditional {test : Expression} (condition : Readable src test) (yes : Readable src left)
    (no : Readable src right) : Readable src (.conditional test left right) := by
  refine .ofLeft rfl fun d enough => ?_
  simp only [pieces, length_append, length_cons, length_inParens] at enough
  exact Parses.assignmentExpression (c := {}) ((condition.operand (by omega)).binaryExpression.conditional
    (yes.nested (by omega)) (no.nested (by omega)))

theorem assignment {operator : AssignmentOperator}
    (first : Readable src (.target target)) (second : Readable src right) :
    Readable src (.assignment operator target right) := by
  have starts : (Expression.assignment operator target right).pieces =
      inParens (Expression.target target).pieces ++ operator.piece :: inParens right.pieces := rfl
  refine .ofLeft starts fun d enough => ?_
  rw [starts, length_append, length_cons, length_inParens, length_inParens] at enough
  rw [starts]
  -- Targets are names and members only, which are read as targets unchanged.
  have isPattern : (Expression.target target).toNode.asPattern? =
      some (Expression.target target).toNode := by
    cases target <;> rfl
  have reads := (first.operand (d := d) (by omega)).binaryExpression.conditionalExpression
  exact Parses.assignment operator isPattern reads (second.nested (by omega))

theorem sequence {es : List Expression} (readable : ∀ e ∈ left :: right :: es, Readable src e) :
    Readable src (.sequence left right es) := by
  intro d enough
  -- Unlike the other expressions, a sequence is read by the rule for parentheses itself.
  refine Parses.sequence fun e member => (readable e member).nested ?_
  simp only [pieces, length_append, length_cons, length_inParens] at enough
  simp only [mem_cons] at member
  rcases member with rfl | rfl | later
  · omega
  · omega
  · have short := length_le_morePieces later
    omega

end Readable

mutual

theorem Target.readable : ∀ target : Target, Readable src (.target target)
  | .name name => .name name
  | .dotted object member => .dotted object.readable member
  | .computed object key => .computed object.readable key.readable

theorem Expression.readable : ∀ e : Expression, Readable src e
  | .target target => target.readable
  | .string quoted => .string quoted
  | .hexadecimal number => .hexadecimal number
  | .boolean value => .boolean value
  | .null => .null
  | .this => .this
  | .call callee args => .call callee.readable (Expression.all_readable args)
  | .new callee args => .new callee.readable (Expression.all_readable args)
  | .unary _ argument => .unary argument.readable
  | .update _ true argument => .prefixed argument.readable
  | .update _ false argument => .postfixed argument.readable
  | .binary _ left right => .binary left.readable right.readable
  | .conditional test yes no => .conditional test.readable yes.readable no.readable
  | .assignment _ left right => .assignment left.readable right.readable
  | .sequence first second rest =>
    .sequence (forall_mem_cons.mpr ⟨first.readable,
      forall_mem_cons.mpr ⟨second.readable, Expression.all_readable rest⟩⟩)
  | .array elements => .array (Expression.elements_readable elements)
  | .object properties => .object (Expression.properties_readable properties)

theorem Expression.all_readable : ∀ (es : List Expression), ∀ e ∈ es, Readable src e
  | [] => nofun
  | first :: rest => forall_mem_cons.mpr ⟨first.readable, Expression.all_readable rest⟩

theorem Expression.elements_readable :
    ∀ (elements : List (Option Expression)) (e : Expression), some e ∈ elements → Readable src e
  | [] => nofun
  | none :: rest => fun e member => Expression.elements_readable rest e (by simpa using member)
  | some first :: rest => fun e member => by
    rcases mem_cons.mp member with same | later
    · cases same
      exact first.readable
    · exact Expression.elements_readable rest e later

theorem Expression.properties_readable : ∀ (properties : List (Word × Expression)) (key : Word)
    (e : Expression), (key, e) ∈ properties → Readable src e
  | [] => nofun
  | (_, first) :: rest => fun key e member => by
    rcases mem_cons.mp member with same | later
    · cases same
      exact first.readable
    · exact Expression.properties_readable rest key e later

end

end EcmaScript
