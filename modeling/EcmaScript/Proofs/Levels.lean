import EcmaScript.Proofs.Reading

/-!
The levels of expressions. Each level of the grammar reads what the level below reads, as long as
nothing comes next that would make more of it: no suffix, no operator. So a construct that one level
reads is read by all levels above, up to the group that stands around it.
-/

namespace EcmaScript

open Parse Grammar Lexeme

variable {src : Source} {reader : Reader} {c : Context}

/-! ### What ends an expression -/

namespace Lexeme

/-- What stands before the lexeme is no list of parameters. -/
def endsPrimary (lexeme : Lexeme) : Bool :=
  lexeme ≠ punctuator .arrow

/-- Nor is a member taken of it. -/
def endsCallee (lexeme : Lexeme) : Bool :=
  lexeme.endsPrimary && lexeme ≠ punctuator .dot && lexeme ≠ punctuator .openBracket &&
    lexeme.kind ≠ .template

/-- Nor is it called. -/
def endsMember (lexeme : Lexeme) : Bool :=
  lexeme.endsCallee && lexeme ≠ punctuator .openParen

/-- Nor is it updated. -/
def endsOperand (lexeme : Lexeme) : Bool :=
  lexeme.endsMember && lexeme.updateOperator? = none

/-- Nor is it the left-hand side of a binary operator, one of which may be switched off. -/
def endsBinary (lexeme : Lexeme) (allowIn : Bool := true) : Bool :=
  lexeme.endsOperand && lexeme.binaryOperator? allowIn = none

/-- Nor is it a condition. -/
def endsTest (lexeme : Lexeme) (allowIn : Bool := true) : Bool :=
  lexeme.endsBinary allowIn && lexeme ≠ punctuator .question

/-- Nor is it assigned. -/
def endsAssignment (lexeme : Lexeme) (allowIn : Bool := true) : Bool :=
  lexeme.endsTest allowIn && lexeme.assignmentOperator? = none

end Lexeme

/-- From the pieces the rule reads the node, as long as what comes next ends it. -/
def Parses (src : Source) (ends : Lexeme → Bool) (rule : ParseM Node) (pieces : List Piece)
    (node : Node) (g : Bool) (c : Context := {}) : Prop :=
  ∀ rest, ends (nextLexeme rest) = true → Reads src (pieces ++ rest) true rule node rest g c

namespace Parses

variable {piece : Piece} {pieces rest : List Piece} {node : Node} {f g : Bool}
variable {ends : Lexeme → Bool}

theorem head (primary : Parses src ends (primary reader) (piece :: pieces) node g c)
    (notSuper : piece.lexeme ≠ .keyword .super) (notNew : piece.lexeme ≠ .keyword .new) :
    Parses src ends (head reader) (piece :: pieces) node g c := by
  intro rest ended
  refine .lookahead fun token isFirst => .context ?_
  rw [if_neg (by simp [isFirst.1, notSuper]), if_neg (isFirst.1 ▸ notNew)]
  exact (primary rest ended).inherited

/-- Nothing is taken where no suffix comes next. -/
theorem suffix_none {allowCall : Bool} (callee : (nextLexeme rest).endsCallee = true)
    (noCall : allowCall = true → nextLexeme rest ≠ .punctuator .openParen) :
    Reads src rest f (suffix reader allowCall node) (.inr node) rest f c := by
  refine .lookahead fun token isFirst => ?_
  rw [isFirst.lexeme_eq]
  split
  next isDot => simp [isDot, endsCallee] at callee
  next isParen =>
    rw [if_neg fun allowed => noCall allowed isParen]
    exact .pure
  next isBracket => simp [isBracket, endsCallee] at callee
  next isTemplate => simp [isTemplate, endsCallee, kind] at callee
  next => exact .pure

theorem leftHandSideAllowCall (head : Parses src endsPrimary (Grammar.head reader) pieces node g
      { c with allowIn := true }) :
    Parses src endsMember (leftHandSideAllowCall reader) pieces node g c := by
  intro rest ended
  obtain ⟨callee, noCall⟩ := Bool.and_eq_true_iff.mp ended
  have primary : (nextLexeme rest).endsPrimary = true := by
    simp only [endsCallee, Bool.and_eq_true] at callee
    exact callee.1.1.1
  refine .withIn (.bind (head rest primary) (Loops.leave (suffix_none callee fun _ => ?_)).repeated)
  exact of_decide_eq_true noCall

theorem postfixExpression
    (lhs : Parses src endsMember (Grammar.leftHandSideAllowCall reader) pieces node g c) :
    Parses src endsOperand (postfixExpression reader) pieces node g c := by
  intro rest ended
  obtain ⟨member, noUpdate⟩ := Bool.and_eq_true_iff.mp ended
  refine .bind (lhs rest member).inherited (.afterLineBreak (fun _ => .pure) ?_)
  refine .lookahead fun token isFirst => ?_
  rw [isFirst.lexeme_eq, of_decide_eq_true noUpdate]
  exact .pure

theorem unaryExpression
    (reads : Parses src endsOperand (Grammar.postfixExpression reader) (piece :: pieces) node g c)
    (noUpdate : piece.lexeme.updateOperator? = none) (noUnary : piece.lexeme.unaryOperator? = none) :
    Parses src endsOperand (unaryExpression reader) (piece :: pieces) node g c := by
  intro rest ended
  refine .lookahead fun token isFirst => ?_
  dsimp only
  rw [isFirst.1, noUpdate, noUnary]
  exact reads rest ended

theorem binaryOperator? :
    Reads src rest f binaryOperator? ((nextLexeme rest).binaryOperator? c.allowIn) rest f c := by
  refine .lookahead fun token isFirst => .context ?_
  rw [isFirst.lexeme_eq]
  exact .pure

theorem binaryExpression
    (unary : Parses src endsOperand (Grammar.unaryExpression reader) pieces node g c) :
    Parses src (·.endsBinary c.allowIn) (binaryExpression reader) pieces node g c := by
  intro rest ended
  obtain ⟨operand, noBinary⟩ := Bool.and_eq_true_iff.mp ended
  refine .bind (unary rest operand).inherited (.bind binaryOperator? ?_)
  rw [of_decide_eq_true noBinary]
  exact .pure

theorem conditionalExpression
    (binary : Parses src (·.endsBinary c.allowIn) (Grammar.binaryExpression reader) pieces node g c) :
    Parses src (·.endsTest c.allowIn) (conditionalExpression reader) pieces node g c := by
  intro rest ended
  obtain ⟨binary_, noTest⟩ := Bool.and_eq_true_iff.mp ended
  exact .bind (binary rest binary_).inherited (.unlessMark (of_decide_eq_true noTest) .pure)

theorem assignmentExpression
    (reads : Parses src (·.endsAssignment c.allowIn) (Grammar.conditionalExpression reader) pieces
      node g c) :
    Parses src (·.endsAssignment c.allowIn) (assignmentExpression reader) pieces node g c := by
  intro rest ended
  obtain ⟨test, noAssignment⟩ := Bool.and_eq_true_iff.mp ended
  have noArrow : nextLexeme rest ≠ .punctuator .arrow := by
    intro isArrow
    rw [isArrow] at test
    cases test
  refine .state fun _ => .bind (reads rest ended) (.unlessMark noArrow ?_)
  refine .lookahead fun token isFirst => ?_
  rw [isFirst.lexeme_eq, of_decide_eq_true noAssignment]
  exact .pure

end Parses

namespace Parses

variable {piece : Piece} {pieces : List Piece} {node : Node} {g : Bool} {ends ends' : Lexeme → Bool}

theorem mono {rule : ParseM Node} (parses : Parses src ends rule pieces node g c)
    (fewer : ∀ lexeme, ends' lexeme = true → ends lexeme = true) :
    Parses src ends' rule pieces node g c :=
  fun rest ended => parses rest (fewer _ ended)

theorem ofBinary
    (reads : Parses src (·.endsBinary c.allowIn) (Grammar.binaryExpression reader) pieces node g c) :
    Parses src (·.endsAssignment c.allowIn) (Grammar.assignmentExpression reader) pieces node g c :=
  (reads.conditionalExpression.mono fun _ ended =>
    (Bool.and_eq_true_iff.mp ended).1).assignmentExpression

theorem ofUnary (reads : Parses src endsOperand (Grammar.unaryExpression reader) pieces node g c) :
    Parses src (·.endsAssignment c.allowIn) (Grammar.assignmentExpression reader) pieces node g c :=
  reads.binaryExpression.ofBinary

theorem ofMember
    (reads : Parses src endsMember (Grammar.leftHandSideAllowCall reader) (piece :: pieces)
      node g c)
    (noUpdate : piece.lexeme.updateOperator? = none) (noUnary : piece.lexeme.unaryOperator? = none) :
    Parses src (·.endsAssignment c.allowIn) (Grammar.assignmentExpression reader) (piece :: pieces)
      node g c :=
  (reads.postfixExpression.unaryExpression noUpdate noUnary).ofUnary

end Parses

/-! ### Groups -/

theorem inParens_append (pieces rest : List Piece) :
    inParens pieces ++ rest = .mark .openParen :: (pieces ++ .mark .closeParen :: rest) := by
  simp [inParens]

namespace Parses

variable {piece : Piece} {pieces rest : List Piece} {node : Node} {f g : Bool}
variable {ends : Lexeme → Bool}

theorem group (reads : Parses src endsAssignment (reader .assignment) (piece :: pieces) node g)
    (notClosed : piece.lexeme ≠ .punctuator .closeParen) (noRest : piece.lexeme ≠ .punctuator .ellipsis) :
    Parses src endsPrimary (group reader) (inParens (piece :: pieces)) node g := by
  intro rest ended
  rw [inParens_append]
  refine .bind .expect (.unlessMark notClosed (.unlessMark noRest ?_))
  refine .bind .noteBinding ?_
  refine .bind (reads (.mark .closeParen :: rest) rfl).inherited ?_
  refine .unlessMark (by nofun) (.bind .pure (.bind .expect ?_))
  exact .unlessMark (of_decide_eq_true ended) (.bind .noteBinding .pure)

theorem primary_group (reads : Parses src ends (Grammar.group reader) (inParens pieces) node g) :
    Parses src ends (primary reader) (inParens pieces) node g := by
  intro rest ended
  refine .lookahead fun token isFirst => ?_
  rw [isFirst.1, Piece.lexeme]
  exact .bind .noteBinding (reads rest ended).inherited

end Parses

end EcmaScript
