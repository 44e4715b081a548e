import EcmaScript.Proofs.Levels

/-!
The constructs of expressions, each read by the level of the grammar that it belongs to. Their parts
stand in parentheses of their own, so that each part ends where its parentheses do.
-/

namespace EcmaScript

open Parse Grammar List Lexeme Expression

variable {src : Source} {reader : Reader} {c : Context}

/-! ### Members and calls -/

theorem Lexeme.name?_ofName (name : Text) : (ofName name).name? = some name := by
  unfold ofName
  split
  next word isWord => exact congrArg some (Name.text_of_lookup isWord).symm
  next =>
    split
    next isNull => exact congrArg some isNull.symm
    next =>
      split
      next isTrue => exact congrArg some isTrue.symm
      next =>
        split
        next isFalse => exact congrArg some isFalse.symm
        next => rfl

theorem Lexeme.ofName_ne_punctuator (name : Text) {mark : Punctuator} :
    ofName name ≠ punctuator mark := by
  intro isMark
  have named := name?_ofName name
  rw [isMark] at named
  cases named

theorem Name.ofName_text (name : Name) : ofName name.text = .identifier name.text := by
  have notWord : Keyword.ofText? name.text = none := by
    simpa [Text.isKeyword] using name.notKeyword
  have notTrue : name.text ≠ booleanText true := name.notBoolean.1
  have notFalse : name.text ≠ booleanText false := name.notBoolean.2
  simp only [ofName, notWord, name.notNull, notTrue, notFalse, if_false]

theorem Reads.targetOnly {pieces : List Piece} {f : Bool} :
    Reads src pieces f targetOnly ⟨⟩ pieces true :=
  .change fun _ stands =>
    stands.apart .rfl rfl stands.settled fun _ => rfl

/-- The rule takes the expression in parentheses. -/
abbrev Encloses (src : Source) (ends : Lexeme → Bool) (rule : ParseM Node) (e : Expression) : Prop :=
  Parses src ends rule (inParens e.pieces) e.toNode e.isTarget

namespace Parses

variable {piece : Piece} {pieces keyPieces rest : List Piece} {node key : Node} {f g h : Bool}
variable {ends : Lexeme → Bool}

theorem dottedName (member : Word) {f : Bool} :
    Reads src (.word member :: rest) f dottedName (.identifier member.text) rest f := by
  refine .take fun token isFirst => ?_
  rw [show token.lexeme = .ofName member.text from isFirst.1, name?_ofName]
  exact .pure

/-- A callee with one suffix behind it. -/
theorem suffixed {result : Node} (callee : Parses src endsPrimary (Grammar.head reader) pieces node g)
    (opens : piece.lexeme.endsPrimary = true)
    (reads : ∀ rest, Reads src (piece :: (keyPieces ++ rest)) g (suffix reader true node) (.inl result)
      rest h) : Parses src endsMember (Grammar.leftHandSideAllowCall reader)
      (pieces ++ piece :: keyPieces) result h := by
  intro rest ended
  obtain ⟨ends, noCall⟩ := Bool.and_eq_true_iff.mp ended
  rw [append_assoc]
  refine .withIn (.bind (callee _ opens) (Loops.again (reads rest) ?_
    (Loops.leave (suffix_none ends fun _ => of_decide_eq_true noCall))).repeated)
  rw [length_cons, length_append]
  omega

theorem dotted (callee : Parses src endsPrimary (Grammar.head reader) pieces node g)
    (member : Word) : Parses src endsMember (Grammar.leftHandSideAllowCall reader)
      (pieces ++ [.mark .dot, .word member])
      (.memberExpression false node (.identifier member.text)) true := by
  refine callee.suffixed rfl fun rest => .lookahead fun token isFirst => ?_
  rw [isFirst.1, Piece.lexeme]
  exact .bind .targetOnly (.bind (.bind .expect (dottedName member)) .pure)

theorem expressionFrom {rule : ParseM Node}
    (reads : Parses src (·.endsAssignment c.allowIn) rule pieces node g c)
    (ended : (nextLexeme rest).endsAssignment c.allowIn = true)
    (single : nextLexeme rest ≠ .punctuator .comma) :
    Reads src (pieces ++ rest) f (expressionFrom rule) node rest f c :=
  .bind (reads rest ended).isolated (.unlessMark single .pure)

theorem computed (callee : Parses src endsPrimary (Grammar.head reader) pieces node g)
    (reads : Parses src endsAssignment (reader .assignment) keyPieces key h) :
    Parses src endsMember (Grammar.leftHandSideAllowCall reader)
      (pieces ++ .mark .openBracket :: (keyPieces ++ [.mark .closeBracket]))
      (.memberExpression true node key) true := by
  refine callee.suffixed rfl fun rest => .lookahead fun token isFirst => ?_
  rw [isFirst.1, Piece.lexeme, append_assoc]
  refine .bind .targetOnly (.bind (.bind .expect ?_) .pure)
  exact .bind (Reads.isolated (expressionFrom reads rfl (by rintro ⟨⟩))) (.bind .expect .pure)

variable {args : List Expression}

theorem nextArgument : ∀ (e : Expression) (before : List Node),
    (∀ e' ∈ e :: args, Encloses src endsAssignment (reader .assignment) e') →
    Loops src (Grammar.nextArgument reader)
      (listPieces (e :: args) ++ .mark .closeParen :: rest) f before
      (before ++ toNodes (e :: args)) (.mark .closeParen :: rest) f := by
  induction args with
  | nil =>
    intro e before reads
    have first := reads e mem_cons_self
    rw [listPieces, morePieces, append_nil]
    refine .leave (.ifInside (by rintro ⟨⟩) (.bind (first _ rfl).isolated ?_))
    exact .ifMark rfl .pure
  | cons second args ih =>
    intro e before reads
    have first := reads e mem_cons_self
    have more := ih second (before ++ [e.toNode]) fun e' member =>
      reads e' (mem_cons_of_mem e member)
    rw [append_assoc] at more
    rw [listPieces, morePieces, append_assoc]
    refine .again (.ifInside (by rintro ⟨⟩) (.bind (first _ rfl).isolated ?_)) ?_ more
    · exact .unlessMark (by rintro ⟨⟩) (.bind .expect .pure)
    · simp [listPieces]
      omega

theorem arguments (reads : ∀ e ∈ args, Encloses src endsAssignment (reader .assignment) e) :
    Reads src (inParens (listPieces args) ++ rest) f (arguments reader) (toNodes args) rest f := by
  rw [inParens_append]
  cases args with
  | nil => exact .bind .expect (.ifMark rfl (.bind .pure (.bind .expect .pure)))
  | cons e args =>
    refine .bind .expect (.unlessMark (by nofun) (.bind (nextArgument e [] reads).repeated ?_))
    exact .bind .expect .pure

theorem call (callee : Parses src endsPrimary (Grammar.head reader) pieces node g)
    (reads : ∀ e ∈ args, Encloses src endsAssignment (reader .assignment) e) :
    Parses src endsMember (Grammar.leftHandSideAllowCall reader) (pieces ++ inParens (listPieces args))
      (.callExpression node (toNodes args)) false := by
  refine callee.suffixed rfl fun rest => .lookahead fun token isFirst => ?_
  rw [isFirst.1, Piece.lexeme, if_pos rfl]
  exact .bind .expressionOnly (.bind (arguments reads) .pure)

theorem leftHandSide (head : Parses src endsPrimary (Grammar.head reader) pieces node g) :
    Parses src endsCallee (leftHandSide reader) pieces node g := by
  intro rest ended
  have primary : (nextLexeme rest).endsPrimary = true := by
    simp only [endsCallee, Bool.and_eq_true] at ended
    exact ended.1.1.1
  refine .context ?_
  rw [if_pos rfl]
  exact .bind (head rest primary) (Loops.leave (suffix_none ended (by rintro ⟨⟩))).repeated

theorem new (callee : Parses src endsCallee (reader .leftHandSide) pieces node g)
    (reads : ∀ e ∈ args, Encloses src endsAssignment (reader .assignment) e) :
    Parses src endsPrimary (Grammar.head reader)
      (.keyword .new :: (pieces ++ inParens (listPieces args)))
      (.newExpression node (toNodes args)) false := by
  intro rest ended
  have reserved : (Piece.keyword .new).lexeme = .keyword .new := by decide
  rw [cons_append, append_assoc]
  refine .lookahead fun token isFirst => .context ?_
  rw [if_neg (by simp), if_pos (isFirst.1.trans reserved)]
  refine Reads.inherited (.bind (.expectKeyword reserved) ?_)
  refine .bind (callee _ rfl).isolated (.ifMark rfl ?_)
  exact .bind (arguments reads) (.bind .expressionOnly .pure)

/-! ### Operations -/

theorem checkUpdate {message : Message} : Reads src rest true (checkUpdate node message) ⟨⟩ rest true :=
  .unlessStrict (.ifTarget .pure)

theorem checkUnary {operator : UnaryOperator} : Reads src rest f (checkUnary operator node) ⟨⟩ rest f :=
  .unlessStrict .pure

theorem unary (operator : UnaryOperator)
    (reads : Parses src endsOperand (reader .unary) pieces node g) :
    Parses src endsOperand (Grammar.unaryExpression reader) (operator.piece :: pieces)
      (.unaryExpression operator node) false := by
  intro rest ended
  have noUpdate : operator.piece.lexeme.updateOperator? = none := by cases operator <;> rfl
  have isUnary : operator.piece.lexeme.unaryOperator? = some operator := by
    cases operator <;> decide
  refine .lookahead fun token isFirst => ?_
  dsimp only
  rw [isFirst.1, noUpdate, isUnary]
  refine .bind .drop (.bind (reads rest ended).inherited ?_)
  exact .bind checkUnary (.bind .expressionOnly .pure)

theorem prefixed (operator : UpdateOperator)
    (reads : Parses src endsOperand (reader .unary) pieces node true) :
    Parses src endsOperand (Grammar.unaryExpression reader) (operator.piece :: pieces)
      (.updateExpression operator true node) false := by
  intro rest ended
  have isUpdate : operator.piece.lexeme.updateOperator? = some operator := by
    cases operator <;> rfl
  refine .lookahead fun token isFirst => ?_
  dsimp only
  rw [isFirst.1, isUpdate]
  refine .bind .drop (.bind (reads rest ended).inherited ?_)
  exact .bind checkUpdate (.bind .expressionOnly .pure)

theorem postfixed (operator : UpdateOperator)
    (reads : Parses src endsMember (Grammar.leftHandSideAllowCall reader) pieces node true) :
    Parses src endsOperand (Grammar.postfixExpression reader) (pieces ++ [operator.piece])
      (.updateExpression operator false node) false := by
  intro rest ended
  have isUpdate : operator.piece.lexeme.updateOperator? = some operator := by
    cases operator <;> rfl
  have member : operator.piece.lexeme.endsMember = true := by cases operator <;> rfl
  rw [append_assoc]
  refine .bind (reads (operator.piece :: rest) member).inherited ?_
  refine .afterLineBreak (fun isLast => ?_) (.lookahead fun token isFirst => ?_)
  · have semicolon := isLast.subset mem_cons_self
    cases operator <;> simp [UpdateOperator.piece] at semicolon
  · rw [isFirst.1, isUpdate]
    exact .bind checkUpdate (.bind .expressionOnly (.bind .drop .pure))

theorem notePrecedence {operator : BinaryOperator} :
    Reads src rest f (notePrecedence operator) ⟨⟩ rest f := by
  refine .change fun p stands => ?_
  obtain ⟨token, coherent, isFirst⟩ := stands.token
  refine { stands with token := ⟨_, coherent.noted _, ?_⟩ }
  cases rest <;> exact isFirst

theorem binary (operator : BinaryOperator) {otherPieces : List Piece} {other : Node}
    (left : Parses src endsOperand (Grammar.unaryExpression reader) pieces node g)
    (right : Parses src endsOperand (Grammar.unaryExpression reader) otherPieces other h) :
    Parses src endsBinary (Grammar.binaryExpression reader)
      (pieces ++ operator.piece :: otherPieces) (.binaryExpression operator node other) false := by
  intro rest ended
  obtain ⟨operand, noBinary⟩ := Bool.and_eq_true_iff.mp ended
  have isBinary : operator.piece.lexeme.binaryOperator? true = some operator := by
    cases operator <;> decide
  have operand' : operator.piece.lexeme.endsOperand = true := by cases operator <;> decide
  rw [append_assoc]
  refine .bind (left (operator.piece :: (otherPieces ++ rest)) operand').inherited ?_
  refine .bind binaryOperator? ?_
  rw [nextLexeme, isBinary]
  refine .bind .expressionOnly (.bind notePrecedence (.bind .drop ?_))
  refine .bind (right rest operand).isolated (Loops.leave (.bind binaryOperator? ?_)).repeated
  rw [of_decide_eq_true noBinary]
  exact .pure

theorem conditional {yesPieces noPieces : List Piece} {yes no : Node} {g' : Bool}
    (test : Parses src endsBinary (Grammar.binaryExpression reader) pieces node g)
    (consequent : Parses src endsAssignment (reader .assignment) yesPieces yes h)
    (alternate : Parses src endsAssignment (reader .assignment) noPieces no g') :
    Parses src endsAssignment (Grammar.conditionalExpression reader)
      (pieces ++ .mark .question :: (yesPieces ++ .mark .colon :: noPieces))
      (.conditionalExpression node yes no) false := by
  intro rest ended
  rw [append_assoc, cons_append, append_assoc]
  refine .bind (test _ rfl).inherited (.ifMark rfl (.bind .drop ?_))
  refine .bind (Reads.withIn (consequent _ rfl).isolated) (.bind .expect ?_)
  exact .bind (alternate rest ended).isolated (.bind .expressionOnly .pure)

theorem assignmentTarget {first : Option Token} {operator : AssignmentOperator}
    (isPattern : node.asPattern? = some node) :
    Reads src rest true (assignmentTarget first operator node) node rest false := by
  refine .ifTarget (.unlessStrict ?_)
  rw [if_neg (by simp)]
  split
  next =>
    rw [reinterpreted, isPattern]
    exact Reads.pure.forget
  next => exact .bind .expressionOnly .pure

theorem assignment (operator : AssignmentOperator) {rightPieces : List Piece} {right : Node}
    (isPattern : node.asPattern? = some node)
    (left : Parses src endsTest (Grammar.conditionalExpression reader) pieces node true)
    (reads : Parses src endsAssignment (reader .assignment) rightPieces right h) :
    Parses src endsAssignment (Grammar.assignmentExpression reader)
      (pieces ++ operator.piece :: rightPieces) (.assignmentExpression operator node right) false := by
  intro rest ended
  have isAssignment : operator.piece.lexeme.assignmentOperator? = some operator := by
    cases operator <;> rfl
  have test : operator.piece.lexeme.endsTest = true := by cases operator <;> rfl
  have noArrow : operator.piece.lexeme ≠ .punctuator .arrow := by cases operator <;> nofun
  rw [append_assoc]
  refine .state fun _ => .bind (left (operator.piece :: (rightPieces ++ rest)) test) ?_
  refine .unlessMark noArrow (.lookahead fun token isFirst => ?_)
  rw [isFirst.1, isAssignment]
  refine .bind (assignmentTarget isPattern) (.bind .drop ?_)
  refine .bind (reads rest ended).isolated (.bind (.change fun _ stands => ?_) .pure)
  exact stands.apart .rfl rfl rfl stands.target

/-! ### Names and literals -/

theorem name (name : EcmaScript.Name) :
    Parses src ends (primary reader) [.word name.toWord] (.identifier name.text) true c := by
  intro rest _
  refine .lookahead fun token isFirst => ?_
  rw [show token.lexeme = .ofName name.text from isFirst.1, name.ofName_text]
  exact .bind .drop .pure

theorem string (string : Quoted) : Parses src ends (primary reader) [.quoted string]
      (.literal (.string string.text) string.written) false := by
  intro rest _
  refine .lookahead fun token isFirst => ?_
  obtain ⟨lexeme, raw⟩ : token.lexeme = .string string.text false ∧ token.raw = some string.written :=
    isFirst
  simp only [refuseOctalString, lexeme, raw]
  exact .bind .expressionOnly (.bind .pure (.bind .drop .pure))

theorem hexadecimal (number : HexNumber) : Parses src ends (primary reader) [.hexadecimal number]
      (.literal (.number (.integer number.value)) number.written) false := by
  intro rest _
  refine .lookahead fun token isFirst => ?_
  obtain ⟨lexeme, raw⟩ : token.lexeme = .numeric (.integer number.value) ∧
      token.raw = some number.written := isFirst
  simp only [lexeme, raw]
  exact .bind .expressionOnly (.bind .drop .pure)

theorem boolean (value : Bool) : Parses src ends (primary reader) [.boolean value]
      (.literal (.boolean value) (booleanText value)) false := by
  intro rest _
  have isBoolean : (Piece.boolean value).lexeme = .boolean value := by cases value <;> decide
  refine .lookahead fun token isFirst => ?_
  rw [isFirst.1, isBoolean, show token.raw = some (booleanText value) from isFirst.2]
  exact .bind .noteBinding (.bind .drop Reads.pure.forget)

theorem null :
    Parses src ends (primary reader) [.null] (.literal .null (Text.ofString "null")) false := by
  intro rest _
  have isNull : Piece.null.lexeme = .null := by decide
  refine .lookahead fun token isFirst => ?_
  rw [isFirst.1, isNull, show token.raw = some (Text.ofString "null") from isFirst.2]
  exact .bind .expressionOnly (.bind .drop .pure)

theorem this : Parses src ends (primary reader) [.keyword .this] .thisExpression false := by
  intro rest _
  have isThis : (Piece.keyword .this).lexeme = .keyword .this := by decide
  refine .lookahead fun token isFirst => ?_
  rw [isFirst.1, isThis]
  exact .bind .expressionOnly (.bind .drop .pure)

/-! ### Sequences, arrays and objects -/

theorem nextExpression {es : List Expression} : ∀ before : List Node,
    (∀ e ∈ es, Encloses src endsAssignment (reader .assignment) e) →
    Loops src (Grammar.nextExpression (groupMember reader))
      (morePieces es ++ .mark .closeParen :: rest) false before
      (before ++ toNodes es) (.mark .closeParen :: rest) false := by
  induction es with
  | nil =>
    intro before _
    rw [toNodes, append_nil]
    exact .leave (.ifInside (by rintro ⟨⟩) (.unlessMark (by rintro ⟨⟩) .pure))
  | cons e es ih =>
    intro before reads
    have first := reads e mem_cons_self
    have more := ih (before ++ [e.toNode]) fun e' member => reads e' (mem_cons_of_mem e member)
    rw [append_assoc] at more
    rw [morePieces, cons_append, append_assoc]
    have ended : (nextLexeme (morePieces es ++ Piece.mark .closeParen :: rest)).endsAssignment =
        true := by
      cases es <;> rfl
    refine .again (.ifInside (by rintro ⟨⟩) (.ifMark rfl (.bind .drop ?_))) ?_ more
    · exact .bind (.unlessMark (by rintro ⟨⟩) (first _ ended).inherited) .pure
    · simp only [length_inParens, length_append, length_cons]
      omega

theorem sequence {first second : Expression} {es : List Expression}
    (reads : ∀ e ∈ first :: second :: es, Encloses src endsAssignment (reader .assignment) e) :
    Parses src endsPrimary (Grammar.group reader) (inParens (Expression.sequence first second es).pieces)
      (Expression.sequence first second es).toNode false := by
  intro rest ended
  have head := reads first mem_cons_self
  have more : Loops src (Grammar.nextExpression (groupMember reader))
      (morePieces (second :: es) ++ Piece.mark .closeParen :: rest) false [first.toNode]
      ([first.toNode] ++ toNodes (second :: es)) (.mark .closeParen :: rest) false :=
    nextExpression _ fun e member => reads e (mem_cons_of_mem first member)
  rw [inParens_append, pieces, append_assoc]
  refine .bind .expect (.unlessMark (by rintro ⟨⟩) (.unlessMark (by rintro ⟨⟩) ?_))
  refine .bind .noteBinding (.bind (head _ rfl).inherited (.ifMark rfl ?_))
  refine .bind (.change fun _ stands => stands.apart (g := false) .rfl rfl
    stands.settled (by simp)) (.bind more.repeated (.bind .pure (.bind .expect ?_)))
  exact .unlessMark (of_decide_eq_true ended) (.bind .noteBinding .pure)

variable {elements : List (Option Expression)}

theorem nextElement : ∀ before : List (Option Node),
    (∀ e, some e ∈ elements → Encloses src endsAssignment (reader .assignment) e) →
    Loops src (Grammar.nextElement reader)
      (elementPieces elements ++ .mark .closeBracket :: rest) false before
      (before ++ toElements elements) (.mark .closeBracket :: rest) false := by
  induction elements with
  | nil =>
    intro before _
    rw [toElements, append_nil]
    refine .leave (.lookahead fun token isFirst => ?_)
    rw [isFirst.1, Piece.lexeme]
    exact .pure
  | cons element elements ih =>
    intro before reads
    have more (node : Option Node) := ih (before ++ [node]) fun e member =>
      reads e (mem_cons_of_mem element member)
    simp only [append_assoc] at more
    cases element with
    | none =>
      refine .again (.lookahead fun token isFirst => ?_) ?_ (more none)
      · rw [isFirst.1, Piece.lexeme]
        exact .bind .drop .pure
      · exact Nat.lt_succ_self _
    | some e =>
      have first := reads e mem_cons_self
      rw [elementPieces, append_assoc]
      refine .again (.lookahead fun token isFirst => ?_) ?_ (more (some e.toNode))
      · rw [isFirst.1, Piece.lexeme]
        cases elements with
        | nil => exact .bind (first _ rfl).inherited (.ifMark rfl (.bind .pure .pure))
        | cons => exact .bind (first _ rfl).inherited (.unlessMark (by rintro ⟨⟩) (.bind .expect .pure))
      · simp [inParens]
        omega

theorem array (reads : ∀ e, some e ∈ elements → Encloses src endsAssignment (reader .assignment) e) :
    Parses src ends (primary reader) (array elements).pieces (array elements).toNode false := by
  intro rest _
  rw [pieces, cons_append, append_assoc]
  refine .lookahead fun token isFirst => ?_
  rw [isFirst.1, Piece.lexeme]
  refine Reads.inherited (.anyTarget (.bind .expect ?_))
  exact .bind (nextElement [] reads).repeated (.bind .drop .pure)

theorem propertyKey (key : Word) {f : Bool} :
    Reads src (.word key :: rest) f (propertyKey reader) (.identifier key.text) rest f := by
  refine .take fun token isFirst => ?_
  have named : token.lexeme.name? = some key.text := by
    rw [show token.lexeme = .ofName key.text from isFirst.1, name?_ofName]
  have noLiteral : tokenLiteral? token = none := by
    unfold tokenLiteral?
    split
    next isString => simp [isString, name?] at named
    next isNumber => simp [isNumber, name?] at named
    next => rfl
  rw [noLiteral]
  dsimp only
  rw [named]
  exact .pure

theorem methodDefinition? {first : Lexeme} {computed : Bool} :
    Reads src (.mark .colon :: rest) f (methodDefinition? reader first key computed) none
      (.mark .colon :: rest) f := by
  have noAccessor {m n : ParseM (Option Node)}
      (no : Reads src (.mark .colon :: rest) f n none (.mark .colon :: rest) f) :
      Reads src (.mark .colon :: rest) f (do if ← atPropertyName then m else n) none
        (.mark .colon :: rest) f := by
    have noName : Reads src (.mark .colon :: rest) f atPropertyName false (.mark .colon :: rest) f := by
      refine .lookahead fun token isFirst => ?_
      rw [isFirst.1, Piece.lexeme]
      exact .pure
    exact noName.bind no
  refine .ite (noAccessor (.bind .pure ?_)) (.ite (noAccessor (.bind .pure ?_)) (.bind .pure ?_))
  all_goals exact .unlessMark (by rintro ⟨⟩) .pure

theorem property (key : Word) (reads : Parses src endsAssignment (reader .assignment) pieces node g)
    (ended : (nextLexeme rest).endsAssignment = true) :
    Reads src (.word key :: .mark .colon :: (pieces ++ rest)) false (Grammar.property reader)
      (.property .init (.identifier key.text) false node false false) rest false := by
  refine .lookahead fun token isFirst => .bind .atMark ?_
  rw [decide_eq_false (show nextLexeme (.word key :: _) ≠ .punctuator .openBracket from
    ofName_ne_punctuator key.text)]
  refine .bind (propertyKey key) (.bind methodDefinition? ?_)
  exact .ifMark rfl (.bind .drop (.bind (reads rest ended).inherited .pure))

variable {properties : List (Word × Expression)}

theorem nextProperty : ∀ before : List Node,
    (∀ key e, (key, e) ∈ properties → Encloses src endsAssignment (reader .assignment) e) →
    Loops src (Grammar.nextProperty reader)
      (propertyPieces properties ++ .mark .closeBrace :: rest) false before
      (before ++ toProperties properties) (.mark .closeBrace :: rest) false := by
  induction properties with
  | nil =>
    intro before _
    rw [toProperties, append_nil]
    exact .leave (.ifMark rfl .pure)
  | cons next properties ih =>
    obtain ⟨key, e⟩ := next
    intro before reads
    have value := reads key e mem_cons_self
    have more (node : Node) := ih (before ++ [node]) fun key' e' member =>
      reads key' e' (mem_cons_of_mem (key, e) member)
    simp only [append_assoc] at more
    rw [propertyPieces, cons_append, cons_append, append_assoc]
    refine .again (.unlessMark ?_ ?_) ?_ (more _)
    · exact ofName_ne_punctuator key.text
    · cases properties with
      | nil => exact .bind (property key value rfl) (.ifMark rfl (.bind .pure .pure))
      | cons => exact .bind (property key value rfl) (.unlessMark (by rintro ⟨⟩) (.bind .expect .pure))
    · simp only [length_inParens, length_append, length_cons]
      omega

theorem object (reads : ∀ key e, (key, e) ∈ properties →
      Encloses src endsAssignment (reader .assignment) e) :
    Parses src ends (primary reader) (object properties).pieces (object properties).toNode false := by
  intro rest _
  rw [pieces, cons_append, append_assoc]
  refine .lookahead fun token isFirst => ?_
  rw [isFirst.1, Piece.lexeme]
  refine Reads.inherited (.anyTarget (.bind .expect ?_))
  exact .bind (nextProperty [] reads).repeated (.bind .expect .pure)

end Parses

end EcmaScript
