import EcmaScript.Proofs.PairedFunctions
import EcmaScript.Proofs.RoundTrip
import EcmaScript.Proofs.StatementPrinting

/-!
Reading printed statements, in any context. Each rule for statements is known by the pieces that it
takes, as long as the readers inside of it give back what was printed. Where a rule looks at single
characters, the pieces around them tell what it sees.
-/

namespace EcmaScript

open List Lexeme Statement

variable {src : Source} {reader : Reader} {c : Context} {pieces rest : List Piece} {f : Bool}

/-! ### Names -/

@[simp] theorem Name.lexeme_piece (name : Name) : name.piece.lexeme = .identifier name.text :=
  name.ofName_text

theorem Parses.assigned (name : Name) :
    Parses src (·.endsAssignment c.allowIn) (Grammar.assignmentExpression reader) [name.piece]
      name.toNode true c := by
  have notSuper : name.piece.lexeme ≠ .keyword .super := by simp
  have notNew : name.piece.lexeme ≠ .keyword .new := by simp
  have head : Parses src endsPrimary (Grammar.head reader) [name.piece] name.toNode true
      { c with allowIn := true } := (Parses.name name).head notSuper notNew
  apply Parses.ofMember head.leftHandSideAllowCall
  · simp [updateOperator?]
  · simp [unaryOperator?]

theorem Lexeme.ne_assign_of_endsAssignment {lexeme : Lexeme} {allowIn : Bool}
    (ended : lexeme.endsAssignment allowIn = true) : lexeme ≠ punctuator .assign := by
  rintro rfl
  exact absurd (Bool.and_eq_true_iff.mp ended).2 (by decide)

variable {message : Message}

namespace Grammar

open Parse

theorem expression_reads (name : Name) (ended : (nextLexeme rest).endsAssignment c.allowIn = true)
    (single : nextLexeme rest ≠ .punctuator .comma) :
    Reads src (name.piece :: rest) f (expression reader) name.toNode rest f c :=
  Parses.expressionFrom (Parses.assigned name) ended single

theorem headExpression_reads (test : Name) :
    Reads src (inParens [test.piece] ++ rest) f (headExpression reader) test.toNode rest f c :=
  .bind .expect (.bind (expression_reads test rfl (by nofun)) (.bind .expect .pure))

theorem bindingName_reads (name : Name) :
    Reads src (name.piece :: rest) f bindingName name.text rest f c := by
  refine .take fun token isFirst => ?_
  simp only [isFirst.1, Name.lexeme_piece]
  exact .pure

theorem pattern_reads (name : Name) : Reads src (name.piece :: rest) f pattern name.text rest f c := by
  refine .lookahead fun token isFirst => ?_
  simp only [isFirst.1, Name.lexeme_piece]
  exact bindingName_reads name

theorem refuseRestrictedName_reads {name : Text} :
    Reads src pieces f (refuseRestrictedName name message) ⟨⟩ pieces f c :=
  .unlessStrict .pure

/-! ### Declarations -/

def ReadsNames (src : Source) (reader : Reader) : Prop :=
  ∀ (c : Context) (name : Name), Parses src (·.endsAssignment c.allowIn) (reader .assignment)
    [name.piece] name.toNode true c

theorem readerOf_readsNames (d : Nat) : ReadsNames src (readerOf (d + 1)) :=
  fun _ name => Parses.assigned name

theorem initializer_reads (names : ReadsNames src reader) (value : Name)
    (ended : (nextLexeme rest).endsAssignment c.allowIn = true) :
    Reads src (.mark .assign :: value.piece :: rest) f (initializer reader) value.toNode rest f c :=
  .bind .drop (names c value rest ended).isolated

theorem variableDeclarator_reads (names : ReadsNames src reader) (declarator : Declarator)
    (ended : (nextLexeme rest).endsAssignment c.allowIn = true) :
    Reads src (declarator.pieces ++ rest) f (variableDeclarator reader) declarator.toNode rest f c := by
  obtain ⟨name, init⟩ := declarator
  cases init with
  | none =>
    refine .bind (pattern_reads name) (.bind refuseRestrictedName_reads (.bind ?_ .pure))
    exact .unlessMark (ne_assign_of_endsAssignment ended) .pure
  | some value =>
    refine .bind (pattern_reads name) (.bind refuseRestrictedName_reads (.bind ?_ .pure))
    exact .ifMark rfl (initializer_reads names value ended).map

/-- A list of declarators is read up to what is neither a comma nor part of the last one. -/
theorem variableDeclarators_reads (names : ReadsNames src reader) (first : Declarator)
    (more : List Declarator) (ended : (nextLexeme rest).endsAssignment c.allowIn = true)
    (single : nextLexeme rest ≠ .punctuator .comma) :
    Reads src (Declarator.listPieces first more ++ rest) f (variableDeclarators reader)
      ((first :: more).map Declarator.toNode) rest f c := by
  -- Each round starts with the declarators read before it, of which there are none at first.
  have loops (before : List Node) : Loops src (fun list => do
      let next ← variableDeclarator reader
      let list := list ++ [next]
      if ← atMark .comma then do
        drop
        if ← inside then pure (.inl list) else pure (.inr list)
      else pure (.inr list)) (Declarator.listPieces first more ++ rest) f before
      (before ++ (first :: more).map Declarator.toNode) rest f c := by
    induction more generalizing first before with
    | nil =>
      simp only [Declarator.listPieces, flatMap_nil, append_nil]
      apply Loops.leave
      exact .bind (variableDeclarator_reads names first ended) (.unlessMark single .pure)
    | cons second more ih =>
      have unfolded : Declarator.listPieces first (second :: more) ++ rest =
          first.pieces ++ Piece.mark .comma :: (Declarator.listPieces second more ++ rest) := by
        simp [Declarator.listPieces]
      have inside : nextLexeme (Declarator.listPieces second more ++ rest) ≠ .endOfSource := by
        obtain ⟨name, init⟩ := second
        cases init <;> simp [Declarator.listPieces, Declarator.pieces, nextLexeme]
      have others := ih second (before ++ [first.toNode])
      rw [append_assoc] at others
      rw [unfolded]
      refine Loops.again ?_ ?_ others
      · refine .bind (variableDeclarator_reads names first rfl) (.ifMark rfl (.bind .drop ?_))
        exact .ifInside inside .pure
      · simp
        omega
  exact (loops []).repeated

end Grammar

/-! ### Where statements start and end -/

namespace Lexeme

/-- What a printed statement starts with. -/
def startsStatement : Lexeme → Bool
  | identifier _ | punctuator .semicolon | punctuator .openBrace => true
  | keyword word => [.break_, .continue_, .debugger, .do_, .for_, .function, .if_, .return_, .switch,
      .throw, .try_, .var, .while_, .with_].contains word
  | _ => false

/-- What goes on with the statement before it. -/
def continuesStatement (lexeme : Lexeme) : Bool :=
  lexeme = keyword .else_ || lexeme = keyword .finally_

/-- A statement neither ends a list of statements nor goes on with the statement before it. -/
theorem startsStatement_apart {lexeme : Lexeme} (starts : lexeme.startsStatement = true) :
    lexeme ≠ endOfSource ∧ lexeme ≠ punctuator .closeBrace ∧ Grammar.endsClause lexeme = false ∧
      lexeme.continuesStatement = false := by
  cases lexeme with
  | punctuator mark => cases mark <;> simp_all [startsStatement, Grammar.endsClause, continuesStatement]
  | keyword word => cases word <;> simp_all [startsStatement, Grammar.endsClause, continuesStatement]
  | identifier => simp [Grammar.endsClause, continuesStatement]
  | _ => cases starts

end Lexeme

structure Follows (rest : List Piece) : Prop where
  nonempty : rest ≠ []
  apart : (nextLexeme rest).continuesStatement = false

theorem Follows.ne (follows : Follows rest) {lexeme : Lexeme} (continues : lexeme.continuesStatement = true) :
    nextLexeme rest ≠ lexeme := by
  rintro rfl
  exact absurd continues (Bool.eq_false_iff.mp follows.apart)

theorem Statement.starts (s : Statement) :
    ∃ piece more, s.pieces = piece :: more ∧ piece.lexeme.startsStatement = true := by
  cases s with
  | expression name => exact ⟨_, _, rfl, by simp [startsStatement]⟩
  | labeled label body => exact ⟨_, _, rfl, by simp [startsStatement]⟩
  | _ => exact ⟨_, _, rfl, rfl⟩

theorem Statement.follows (s : Statement) : Follows (s.pieces ++ rest) := by
  obtain ⟨piece, more, spelled, starts⟩ := s.starts
  rw [spelled]
  exact ⟨cons_ne_nil _ _, (startsStatement_apart starts).2.2.2⟩

theorem Follows.listPieces (follows : Follows rest) (ss : List Statement) :
    Follows (Statement.listPieces ss ++ rest) := by
  cases ss with
  | nil => exact follows
  | cons first ss =>
    rw [Statement.listPieces, append_assoc]
    exact first.follows

/-- The rule reads the statement from what was printed of it. -/
def Recovers (src : Source) (c : Context) (rule : ParseM Node) (s : Statement) : Prop :=
  ∀ rest, Follows rest → Reads src (s.pieces ++ rest) false rule s.toNode rest false c

namespace Grammar

open Parse

variable {node : Node} {g : Bool} {s : Statement}

/-! ### The rule for a statement -/

theorem freshStatement_reads : Reads src pieces f freshStatement ⟨⟩ pieces true c :=
  .change fun _ stands =>
    stands.apart .rfl rfl stands.settled fun _ => rfl

/-- A keyword leads to the rule of its own. -/
theorem statement_of_keyword {piece : Piece} {word : Keyword} (reserved : piece.lexeme = .keyword word)
    (reads : Reads src (piece :: pieces) true (keywordStatement reader word) node rest g c) :
    Reads src (piece :: pieces) f (statement reader) node rest false c := by
  refine .lookahead fun token isFirst => ?_
  rw [isFirst.1, reserved]
  exact (Reads.bind freshStatement_reads reads).forget

theorem statement_of_name {name : Name}
    (reads : Reads src (name.piece :: pieces) true (expressionOrLabel reader) node rest g c) :
    Reads src (name.piece :: pieces) f (statement reader) node rest false c := by
  refine .lookahead fun token isFirst => ?_
  simp only [isFirst.1, Name.lexeme_piece]
  exact (Reads.bind freshStatement_reads reads).forget

theorem statement_of_block
    (reads : Reads src (.mark .openBrace :: pieces) f (block reader) node rest g c) :
    Reads src (.mark .openBrace :: pieces) f (statement reader) node rest g c := by
  refine .lookahead fun token isFirst => ?_
  rw [isFirst.1, Piece.lexeme]
  exact reads

theorem statement_empty :
    Reads src (.mark .semicolon :: rest) f (statement reader) .emptyStatement rest true c := by
  refine .lookahead fun token isFirst => ?_
  rw [isFirst.1, Piece.lexeme]
  exact .bind freshStatement_reads (.bind .expect .pure)

theorem listItem_of_statement {piece : Piece} (starts : piece.lexeme.startsStatement = true)
    (notFunction : piece.lexeme ≠ .keyword .function)
    (reads : Reads src (piece :: pieces) f (statement reader) node rest g c) :
    Reads src (piece :: pieces) f (listItem reader) node rest g c := by
  refine .lookahead fun token isFirst => ?_
  rw [isFirst.1]
  split
  case h_5 isFunction => exact absurd isFunction notFunction
  case h_8 => exact reads
  -- No other keyword that is looked for starts a printed statement.
  all_goals next found =>
    rw [found] at starts
    cases starts

/-! ### Lists of statements -/

variable {ss : List Statement}

theorem statements_loop {round : List Node → ParseM (List Node ⊕ List Node)} {answer : List Node}
    {after : List Piece}
    (takes : ∀ s ∈ ss, ∀ before rest, Follows rest → Reads src (s.pieces ++ rest) false (round before)
      (.inl (before ++ [s.toNode])) rest false c) (follows : Follows rest) {before : List Node}
    (last : Loops src round rest false (before ++ toNodes ss) answer after false c) :
    Loops src round (Statement.listPieces ss ++ rest) false before answer after false c := by
  induction ss generalizing before with
  | nil => simpa [toNodes, Statement.listPieces] using last
  | cons first ss ih =>
    obtain ⟨takesFirst, takesOthers⟩ := forall_mem_cons.mp takes
    obtain ⟨piece, more, spelled, -⟩ := first.starts
    rw [Statement.listPieces, append_assoc]
    refine Loops.again (takesFirst before _ (follows.listPieces ss)) ?_ (ih takesOthers ?_)
    · simp only [spelled, length_append, length_cons]
      omega
    · simpa [toNodes] using last

theorem statementsFrom_reads (items : ∀ s ∈ ss, Recovers src c (reader .listItem) s) :
    Reads src (Statement.listPieces ss ++ .mark .closeBrace :: rest) false
      (statementsFrom reader []) (toNodes ss) (.mark .closeBrace :: rest) false c := by
  refine Loops.repeated (statements_loop (fun s member before rest follows => ?_)
    ⟨cons_ne_nil _ _, rfl⟩ (Loops.leave ?_))
  · have item := items s member rest follows
    obtain ⟨piece, more, spelled, starts⟩ := s.starts
    obtain ⟨notEnd, notBrace, -⟩ := startsStatement_apart starts
    rw [spelled] at item ⊢
    exact .ifInside notEnd (.unlessMark notBrace (.bind item .pure))
  · exact .ifInside (by nofun) (.ifMark rfl .pure)

theorem block_reads (items : ∀ s ∈ ss, Recovers src c (reader .listItem) s) :
    Reads src (inBraces (Statement.listPieces ss) ++ rest) false (block reader)
      (.blockStatement (toNodes ss)) rest false c := by
  rw [inBraces, cons_append, append_assoc]
  exact .bind .expect (.bind (statementsFrom_reads items) (.bind .expect .pure))

/-! ### Labels and jumps -/

theorem expressionOrLabel_labeled {label : Name} (fresh : label.text ∉ c.labels)
    (reads : Reads src pieces f (reader .statement) node rest g
      { c with labels := c.labels ++ [label.text] }) :
    Reads src (label.piece :: .mark .colon :: pieces) f (expressionOrLabel reader)
      (.labeledStatement label.toNode node) rest g c := by
  refine .bind (expression_reads label rfl (by nofun)) (.ifMark rfl (.bind .drop (.context ?_)))
  rw [if_neg (by simpa using fresh)]
  -- The label is taken off again, and it was not among the labels before.
  have leaves : Reads src rest g
      (changeContext fun c => { c with labels := c.labels.erase label.text }) ⟨⟩ rest g
      { c with labels := c.labels ++ [label.text] } c := by
    have erased : (c.labels ++ [label.text]).erase label.text = c.labels := by
      simp [erase_append_right _ fresh]
    have changes : Reads src rest g
        (changeContext fun c => { c with labels := c.labels.erase label.text }) ⟨⟩ rest g
        { c with labels := c.labels ++ [label.text] }
        { c with labels := (c.labels ++ [label.text]).erase label.text } := .changeContext
    rw [erased] at changes
    exact changes
  exact .bind .changeContext (.bind reads (.bind leaves .pure))

theorem checkJump_reads {allowed : Context → Bool} (admitted : allowed c = true) :
    Reads src pieces f (checkJump allowed message) ⟨⟩ pieces f c := by
  refine .context ?_
  rw [if_pos admitted]
  exact .pure

theorem jumpLabel?_name {label : Name} (known : label.text ∈ c.labels) :
    Reads src (label.piece :: rest) f jumpLabel? (some label.text) rest f c := by
  refine .lookahead fun token isFirst => ?_
  simp only [isFirst.1, Name.lexeme_piece]
  refine .bind (bindingName_reads label) (.context ?_)
  rw [if_pos (by simpa using known)]
  exact .pure

theorem jumpLabel?_none : Reads src (.mark .semicolon :: rest) f jumpLabel? none
    (.mark .semicolon :: rest) f c := by
  refine .lookahead fun token isFirst => ?_
  rw [isFirst.1, Piece.lexeme]
  exact .pure

theorem not_last (pieces : List Piece) (nonempty : rest ≠ []) :
    ¬ pieces ++ .mark .semicolon :: rest <:+ [.mark .semicolon] := by
  intro isLast
  have short := isLast.length_le
  simp only [length_append, length_cons, length_nil] at short
  exact nonempty (length_eq_zero_iff.mp (by omega))

variable {label : Option Name}

theorem foretold_label {index : Nat}
    (foretold : Foretells src index (Name.pieces? label ++ .mark .semicolon :: rest)) :
    ∃ ch, src[index]? = some ch ∧ (ch = 0x3B → label = none) := by
  cases label with
  | none =>
    obtain ⟨ch, found, -⟩ := foretold
    exact ⟨ch, found, fun _ => rfl⟩
  | some label =>
    obtain ⟨ch, found, isSemicolon, -⟩ := foretold
    exact ⟨ch, found, fun same => absurd (isSemicolon same) (by simp [Name.piece])⟩

/-- A jump without a label must be allowed, and a label must be known. -/
def JumpAllowed (allowed : Context → Bool) (c : Context) : Option Name → Prop
  | none => allowed c = true
  | some label => label.text ∈ c.labels

theorem jumpTail_reads {allowed : Context → Bool} {immediate : Bool} (lawful : JumpAllowed allowed c label)
    (bare : immediate = true → label = none) (nonempty : rest ≠ []) :
    Reads src (Name.pieces? label ++ .mark .semicolon :: rest) f (jumpTail allowed message immediate)
      (label.map Name.toNode) rest f c := by
  cases immediate with
  | true =>
    obtain rfl := bare rfl
    exact .bind .drop (.bind (checkJump_reads lawful) .pure)
  | false =>
    refine .afterLineBreak (fun isLast => absurd isLast (not_last _ nonempty)) ?_
    cases label with
    | none =>
      exact .bind jumpLabel?_none (.bind .consumeSemicolon (.bind (checkJump_reads lawful) .pure))
    | some label => exact .bind (jumpLabel?_name lawful) (.bind .consumeSemicolon .pure)

/-- A name cannot follow where there is none. -/
theorem nameFollows_obtains {argument : Option Name} :
    Obtains src (Name.pieces? argument ++ .mark .semicolon :: rest) f nameFollows
      (fun follows => follows = true → argument ≠ none)
      (Name.pieces? argument ++ .mark .semicolon :: rest) f c := by
  refine .lastMark fun mark foretold => ?_
  cases argument with
  | some argument =>
    obtain ⟨ch, found, -, blank⟩ := foretold
    refine .characterAt found ?_
    split
    next isBlank =>
      obtain ⟨second, found, -⟩ := blank isBlank
      exact .characterAt found (.pure (by simp))
    next => exact .pure nofun
  | none =>
    obtain ⟨ch, found, -, blank⟩ := foretold
    refine .characterAt found ?_
    split
    next isBlank =>
      obtain ⟨second, found, other⟩ := blank isBlank
      exact .characterAt found (.pure fun starts => absurd rfl (other starts))
    next => exact .pure nofun

/-! ### Loops -/

theorem loopBody_reads {body : ParseM Node}
    (reads : Reads src pieces f body node rest g { c with inIteration := true }) :
    Reads src pieces f (loopBody body) node rest g c :=
  .context (.within reads rfl)

theorem withoutIn_reads {α : Type} {m : ParseM α} {a : α}
    (reads : Reads src pieces f m a rest g { c with allowIn := false }) :
    Reads src pieces f (withoutIn c m) a rest g c :=
  .within reads rfl

theorem counting_reads {init : Option Node} (test update : Option Name) :
    Reads src (Name.pieces? test ++ .mark .semicolon :: (Name.pieces? update ++
        .mark .closeParen :: rest)) f (counting reader init)
      (.counting init (test.map Name.toNode) (update.map Name.toNode)) (.mark .closeParen :: rest) f
      c := by
  have updates (test : Option Node) : Reads src
      (.mark .semicolon :: (Name.pieces? update ++ Piece.mark .closeParen :: rest)) f
      (countingRest reader init test) (.counting init test (update.map Name.toNode))
      (.mark .closeParen :: rest) f c := by
    refine .bind .expect ?_
    cases update with
    | none => exact .ifMark rfl (.bind .pure .pure)
    | some update =>
      have other : nextLexeme (Name.pieces? (some update) ++ Piece.mark .closeParen :: rest) ≠
          .punctuator .closeParen := by
        simp [nextLexeme, Name.pieces?]
      exact .unlessMark other (.bind (Reads.map (expression_reads update rfl (by rintro ⟨⟩))) .pure)
  cases test with
  | none => exact .ifMark rfl (.bind .pure (updates none))
  | some test =>
    have other : nextLexeme (Name.pieces? (some test) ++ Piece.mark .semicolon ::
        (Name.pieces? update ++ Piece.mark .closeParen :: rest)) ≠ .punctuator .semicolon := by
      simp [nextLexeme, Name.pieces?]
    refine .unlessMark other (.bind (Reads.map (expression_reads test rfl (by rintro ⟨⟩))) ?_)
    exact updates (some test.toNode)

theorem variableHead_counting (names : ReadsNames src reader) (first : Declarator)
    (more : List Declarator) (test update : Option Name) :
    Reads src (.keyword .var :: (Declarator.listPieces first more ++ .mark .semicolon ::
        (Name.pieces? test ++ .mark .semicolon :: (Name.pieces? update ++ .mark .closeParen :: rest))))
      f (variableHead reader c) (.counting (some (Declarator.declaration first more))
        (test.map Name.toNode) (update.map Name.toNode)) (.mark .closeParen :: rest) f c := by
  refine .bind .drop (.bind (withoutIn_reads
    (variableDeclarators_reads names first more rfl (by nofun))) (.bind .atKeyword ?_))
  rw [if_neg (by simp [nextLexeme, Piece.lexeme])]
  exact .bind .expect (counting_reads test update)

theorem variableHead_enumerating (names : ReadsNames src reader) (declarator : Declarator)
    (right : Name) : Reads src (.keyword .var :: (declarator.pieces ++ .keyword .in_ :: right.piece ::
        .mark .closeParen :: rest)) f (variableHead reader c)
      (.enumerating (Declarator.declaration declarator []) right.toNode) (.mark .closeParen :: rest) f
      c := by
  have reserved : (Piece.keyword .in_).lexeme = .keyword .in_ := rfl
  have list : Reads src (declarator.pieces ++ Piece.keyword .in_ :: right.piece ::
      .mark .closeParen :: rest) f (withoutIn c (variableDeclarators reader)) [declarator.toNode]
      (.keyword .in_ :: right.piece :: .mark .closeParen :: rest) f c := by
    have spelled : declarator.pieces = Declarator.listPieces declarator [] := by
      simp [Declarator.listPieces]
    rw [spelled]
    exact withoutIn_reads (variableDeclarators_reads names declarator [] rfl
      (by simp [nextLexeme, reserved]))
  refine .bind .drop (.bind list (.bind .atKeyword ?_))
  rw [if_pos (by simp [nextLexeme, reserved])]
  exact .bind .drop (.bind (expression_reads right rfl (by rintro ⟨⟩)) .pure)

theorem headName_reads (name : Name) (ended : (nextLexeme rest).endsAssignment false = true) :
    Reads src (name.piece :: rest) true (withoutIn c (inherited (assignmentExpression reader)))
      name.toNode rest true c :=
  withoutIn_reads (Parses.assigned (c := { c with allowIn := false }) name rest ended).inherited

theorem forHead_counting (names : ReadsNames src reader) (init : Option ForInit)
    (test update : Option Name) :
    Reads src ((ForInit.pieces? init ++ .mark .semicolon :: (Name.pieces? test ++ .mark .semicolon ::
        Name.pieces? update)) ++ .mark .closeParen :: rest) true (forHead reader c)
      (.counting (init.map ForInit.toNode) (test.map Name.toNode) (update.map Name.toNode))
      (.mark .closeParen :: rest) true c := by
  simp only [append_assoc, cons_append]
  refine .lookahead fun token isFirst => ?_
  cases init with
  | none =>
    rw [if_pos (show token.lexeme = .punctuator .semicolon from isFirst.1)]
    exact .bind .drop (counting_reads test update)
  | some init =>
    cases init with
    | var first more =>
      rw [show token.lexeme = .keyword .var from isFirst.1, if_neg (by nofun), if_pos rfl]
      exact variableHead_counting names first more test update
    | expression name =>
      have lexeme : token.lexeme = .identifier name.text := isFirst.1.trans name.lexeme_piece
      rw [lexeme, if_neg (by nofun), if_neg (by nofun)]
      refine .bind (headName_reads name rfl) (.unlessKeyword (by nofun) ?_)
      exact .bind (.unlessMark (by nofun) .pure) (.bind .expect (counting_reads test update))

theorem forHead_enumerating (names : ReadsNames src reader) (left : ForTarget) (right : Name) :
    Reads src ((left.pieces ++ [.keyword .in_, right.piece]) ++ .mark .closeParen :: rest) true
      (forHead reader c) (.enumerating left.toNode right.toNode) (.mark .closeParen :: rest) true
      c := by
  rw [append_assoc]
  refine .lookahead fun token isFirst => ?_
  cases left with
  | declared declarator =>
    rw [show token.lexeme = .keyword .var from isFirst.1, if_neg (by nofun), if_pos rfl]
    exact variableHead_enumerating names declarator right
  | name name =>
    have lexeme : token.lexeme = .identifier name.text := isFirst.1.trans name.lexeme_piece
    rw [lexeme, if_neg (by nofun), if_neg (by nofun)]
    refine .bind (headName_reads name rfl) (.ifKeyword rfl (.ifTarget (.bind .drop ?_)))
    exact .bind .pure (.bind (expression_reads right rfl (by nofun)) .pure)

theorem forStatement_reads {head : ForHead}
    (heads : ∀ rest, Reads src (pieces ++ .mark .closeParen :: rest) true (forHead reader c) head
      (.mark .closeParen :: rest) true c)
    (body : Recovers src { c with inIteration := true } (reader .statement) s)
    (follows : Follows rest) :
    Reads src (.keyword .for_ :: (inParens pieces ++ (s.pieces ++ rest))) true (forStatement reader)
      (match head with
        | .counting init test update => .forStatement init test update s.toNode
        | .enumerating left right => .forInStatement left right s.toNode) rest true c := by
  rw [inParens_append]
  refine .context (.bind (.expectKeyword rfl) (.bind .expect (.bind (heads _) (.bind .expect ?_))))
  refine .bind (loopBody_reads (body rest follows).anyTarget.isolated) ?_
  cases head with
  | counting => exact .pure
  | enumerating => exact .pure

/-! ### Handlers -/

variable {body : List Statement}

theorem catchClause_reads {param : Name}
    (reads : Reads src pieces false (block reader) node rest false c) :
    Reads src (.keyword .catch_ :: (inParens [param.piece] ++ pieces)) false (catchClause reader)
      (.catchClause param.toNode node) rest false c := by
  have other : nextLexeme (param.piece :: .mark .closeParen :: pieces) ≠ .punctuator .closeParen := by
    simp [nextLexeme]
  refine .bind (.expectKeyword rfl) (.bind .expect (.unlessMark other ?_))
  refine .bind (pattern_reads param) (.bind refuseRestrictedName_reads (.bind .expect ?_))
  exact .bind reads .pure

/-! ### Clauses -/

def clauseHead : Option Name → List Piece
  | none => [.keyword .default]
  | some test => [.keyword .case_, test.piece]

theorem clauseTest_reads (test : Option Name) :
    Reads src (clauseHead test ++ .mark .colon :: rest) f (clauseTest reader)
      (test.map Name.toNode) (.mark .colon :: rest) f c := by
  cases test with
  | none => exact .ifKeyword rfl (.bind .drop .pure)
  | some test =>
    have other : (Piece.keyword .case_).lexeme ≠ .keyword .default := by decide
    refine .unlessKeyword other (.bind (.expectKeyword rfl) ?_)
    exact Reads.map (expression_reads test rfl (by nofun))

theorem follows_of_endsClause (ends : endsClause (nextLexeme rest) = true) : Follows rest := by
  constructor
  · rintro rfl
    cases ends
  · apply Bool.eq_false_iff.mpr
    intro continues
    simp only [continuesStatement, Bool.or_eq_true, decide_eq_true_eq] at continues
    rcases continues with same | same
    · rw [same] at ends
      cases ends
    · rw [same] at ends
      cases ends

theorem switchClause_reads {test : Option Name} (items : ∀ s ∈ body, Recovers src c (reader .listItem) s)
    (ends : endsClause (nextLexeme rest) = true) :
    Reads src (clauseHead test ++ .mark .colon :: (Statement.listPieces body ++ rest)) false
      (switchClause reader) (test.map Name.toNode, toNodes body) rest false c := by
  have notEnd : nextLexeme rest ≠ .endOfSource := by
    intro isEnd
    rw [isEnd] at ends
    cases ends
  refine .bind (clauseTest_reads test) (.bind .expect (.bind (Loops.repeated (statements_loop
    (fun s member before rest follows => ?_) (follows_of_endsClause ends) (Loops.leave ?_))) .pure))
  · have item := items s member rest follows
    obtain ⟨piece, more, spelled, starts⟩ := s.starts
    obtain ⟨notEnd, -, notClause, -⟩ := startsStatement_apart starts
    rw [spelled] at item ⊢
    refine .ifInside notEnd (.lookahead fun token isFirst => ?_)
    rw [isFirst.1, if_neg (by simp [notClause])]
    exact .bind item .pure
  · refine .ifInside notEnd (.lookahead fun token isFirst => ?_)
    rw [isFirst.lexeme_eq, if_pos ends]
    exact .pure

/-- The part of a round that reads a clause. -/
theorem clause_round {α : Type} {m n : ParseM α} {k : Option Node × List Node → ParseM α} {a : α}
    (test : Option Name) (items : ∀ s ∈ body, Recovers src c (reader .listItem) s)
    (ends : endsClause (nextLexeme rest) = true)
    (next : Reads src rest false (k (test.map Name.toNode, toNodes body)) a rest false c) :
    Reads src (clauseHead test ++ .mark .colon :: (Statement.listPieces body ++ rest)) false (do
      if ← inside then do
        if ← atMark .closeBrace then m else switchClause reader >>= k
      else n) a rest false c := by
  have apart : nextLexeme (clauseHead test ++ Piece.mark .colon :: (Statement.listPieces body ++ rest)) ∈
      [.keyword .default, .keyword .case_] := by
    cases test with
    | none => exact mem_cons_self
    | some test => exact mem_cons_of_mem _ mem_cons_self
  have notEnd : nextLexeme (clauseHead test ++ Piece.mark .colon :: (Statement.listPieces body ++ rest)) ≠
      .endOfSource := by
    intro isEnd
    rw [isEnd] at apart
    simp at apart
  have notBrace : nextLexeme (clauseHead test ++ Piece.mark .colon ::
      (Statement.listPieces body ++ rest)) ≠ .punctuator .closeBrace := by
    intro isBrace
    rw [isBrace] at apart
    simp at apart
  exact .ifInside notEnd (.unlessMark notBrace (.bind (switchClause_reads items ends) next))

variable {clauses : List (Name × List Statement)}

theorem endsClause_clausePieces (clauses : List (Name × List Statement))
    (ends : endsClause (nextLexeme rest) = true) :
    endsClause (nextLexeme (clausePieces clauses ++ rest)) = true := by
  cases clauses with
  | nil => exact ends
  | cons => rfl

theorem clauses_loop {round : List Node × Bool → ParseM (List Node × Bool ⊕ List Node)}
    {found : Bool} {answer : List Node} {after : List Piece}
    (takes : ∀ clause ∈ clauses, ∀ before rest, endsClause (nextLexeme rest) = true →
      Reads src (clauseHead (some clause.1) ++
          .mark .colon :: (Statement.listPieces clause.2 ++ rest)) false (round (before, found))
        (.inl (before ++ [.switchCase (some clause.1.toNode) (toNodes clause.2)], found))
        rest false c) (ends : endsClause (nextLexeme rest) = true) {before : List Node}
    (last : Loops src round rest false (before ++ toClauses clauses, found) answer after
      false c) :
    Loops src round (clausePieces clauses ++ rest) false (before, found) answer after false
      c := by
  induction clauses generalizing before with
  | nil => simpa [toClauses, clausePieces] using last
  | cons clause clauses ih =>
    obtain ⟨test, body⟩ := clause
    obtain ⟨takesFirst, takesOthers⟩ := forall_mem_cons.mp takes
    have first := takesFirst before _ (endsClause_clausePieces clauses ends)
    have spelled : clausePieces ((test, body) :: clauses) ++ rest =
        clauseHead (some test) ++ Piece.mark .colon :: (Statement.listPieces body ++
          (clausePieces clauses ++ rest)) := by
      simp [clausePieces, clauseHead]
    rw [spelled]
    refine Loops.again first ?_ (ih takesOthers ?_)
    · simp
      omega
    · simpa [toClauses] using last

theorem switchCases_reads
    (items : ∀ clause ∈ clauses, ∀ s ∈ clause.2, Recovers src c (reader .listItem) s) :
    Reads src (clausePieces clauses ++ .mark .closeBrace :: rest) false
      (switchCases reader) (toClauses clauses) (.mark .closeBrace :: rest) false c := by
  refine Loops.repeated (clauses_loop (fun clause member before rest ends => ?_) rfl (Loops.leave ?_))
  · exact clause_round (some clause.1) (items clause member) ends .pure
  · exact .ifInside (by nofun) (.ifMark rfl .pure)

theorem switchCases_default {after : List (Name × List Statement)}
    (items : ∀ clause ∈ clauses ++ after, ∀ s ∈ clause.2, Recovers src c (reader .listItem) s)
    (otherwise : ∀ s ∈ body, Recovers src c (reader .listItem) s) :
    Reads src (clausePieces clauses ++ .keyword .default :: .mark .colon ::
        (Statement.listPieces body ++ (clausePieces after ++ .mark .closeBrace :: rest)))
      false (switchCases reader) (toClauses clauses ++
        .switchCase none (toNodes body) :: toClauses after)
      (.mark .closeBrace :: rest) false c := by
  have collected : toClauses clauses ++
      .switchCase none (toNodes body) :: toClauses after =
      [] ++ toClauses clauses ++ [.switchCase none (toNodes body)] ++
        toClauses after := by
    simp
  obtain ⟨before, after⟩ := forall_mem_append.mp items
  rw [collected]
  refine Loops.repeated (clauses_loop (fun clause member _ _ ends => ?_) ?_ ?_)
  · exact clause_round (some clause.1) (before clause member) ends .pure
  · rfl
  · -- From the round that reads it on the loop knows of the default.
    refine Loops.again (clause_round none otherwise (endsClause_clausePieces _ rfl) .pure) ?_
      (clauses_loop (fun clause member _ _ ends => ?_) ?_ (Loops.leave ?_))
    · simp
      omega
    · exact clause_round (some clause.1) (after clause member) ends .pure
    · rfl
    · exact .ifInside (by nofun) (.ifMark rfl .pure)

theorem switchBody_reads {m : ParseM (List Node)} {nodes : List Node}
    (reads : Reads src pieces f m nodes rest g { c with inSwitch := true }) :
    Reads src pieces f (switchBody m) nodes rest g c :=
  .context (.within reads rfl)

theorem switchStatement_reads {discriminant : Name} {nodes : List Node} (empty : pieces = [] → nodes = [])
    (first : pieces ≠ [] → nextLexeme (pieces ++ .mark .closeBrace :: rest) ≠ .punctuator .closeBrace)
    (clauses : Reads src (pieces ++ .mark .closeBrace :: rest) false (switchCases reader) nodes
      (.mark .closeBrace :: rest) false { c with inSwitch := true }) :
    Reads src (.keyword .switch :: (inParens [discriminant.piece] ++ (inBraces pieces ++ rest))) false
      (switchStatement reader) (.switchStatement discriminant.toNode nodes) rest false c := by
  rw [inBraces, cons_append, append_assoc]
  refine .bind (.expectKeyword rfl) (.bind (headExpression_reads discriminant) (.bind .expect ?_))
  by_cases none : pieces = []
  · rw [none, empty none]
    exact .ifMark rfl (.bind .drop .pure)
  · refine .unlessMark (first none) ?_
    exact .bind (switchBody_reads clauses) (.bind .expect .pure)

/-! ### Functions -/

theorem functionName_obtains (name : Name) :
    Obtains src (name.piece :: rest) f functionName (fun found => found.1 = name.text) rest f c := by
  refine .lookahead fun token _ => .after (bindingName_reads name) (.unlessStrict ?_)
  rw [if_neg (by simp)]
  exact .ite (.pure rfl) (.ite (.pure rfl) (.pure rfl))

theorem parameter_obtains (name : Name) (noDefault : nextLexeme rest ≠ .punctuator .assign) :
    Obtains src (name.piece :: rest) f (parameter reader)
      (fun found => found.2.1 = name.text ∧ found.2.2 = none) rest f c := by
  refine .lookahead fun token isFirst => ?_
  have lexeme : token.lexeme = .identifier name.text := isFirst.1.trans name.lexeme_piece
  rw [lexeme, if_neg (by simp [isEllipsis]), if_neg (by nofun)]
  have reads : Reads src (name.piece :: rest) f (patternAndDefault reader) (name.text, none) rest f
      c := .bind (pattern_reads name) (.unlessMark noDefault .pure)
  exact .after reads (.pure ⟨rfl, rfl⟩)

/-- The parameters recorded are these names, and none of them has a default. -/
def Formals.Lists {β : Type} (f : Formals β) (names : List Name) : Prop :=
  f.params = names.map Name.toNode ∧ f.defaults = names.map fun _ => none

theorem Formals.Lists.effectiveDefaults {β : Type} {f : Formals β} {names : List Name}
    (lists : f.Lists names) : f.effectiveDefaults = [] := by
  unfold Formals.effectiveDefaults
  rw [if_neg (by simp [lists.2])]

theorem addParameter_obtains {β : Type} {blame : Token → β} {before : Formals β} {names : List Name}
    (name : Name) (lists : before.Lists names) (noDefault : nextLexeme rest ≠ .punctuator .assign) :
    Obtains src (name.piece :: rest) f (addParameter reader blame before)
      (fun after => after.Lists (names ++ [name])) rest f c := by
  refine .bind (parameter_obtains name noDefault) ?_
  rintro ⟨token, text, default⟩ ⟨rfl, rfl⟩
  refine .unlessStrict (.pure ?_)
  obtain ⟨params, defaults⟩ := before.declare_params false (blame token) name.text
  constructor
  · simp [Formals.add, params, lists.1, Name.toNode]
  · simp [Formals.add, defaults, lists.2]

/-- Each round takes one of the parameters that are left and the comma behind it. -/
theorem parameters_loop {β : Type} {blame : Token → β} {before : Formals β} {done : List Name}
    (first : Name) (more : List Name) (lists : before.Lists done) :
    Repeats src (fun f => do
        if ← inside then do
          let f ← addParameter reader blame f
          if ← atMark .closeParen then pure (.inr f)
          else do
            expect .comma
            pure (.inl f)
        else pure (.inr f))
      (Name.listPieces (first :: more) ++ .mark .closeParen :: rest) f before
      (fun found => found.Lists (done ++ first :: more)) (.mark .closeParen :: rest) f c := by
  induction more generalizing first done before with
  | nil =>
    apply Repeats.leave
    refine .ifInside (by simp [Name.listPieces, nextLexeme]) ?_
    refine .bind (addParameter_obtains first lists (by rintro ⟨⟩)) fun after added => ?_
    exact .ifMark rfl (.pure ⟨after, rfl, added⟩)
  | cons second more ih =>
    have spelled : Name.listPieces (first :: second :: more) ++ Piece.mark .closeParen :: rest =
        first.piece :: .mark .comma ::
          (Name.listPieces (second :: more) ++ Piece.mark .closeParen :: rest) := by
      simp [Name.listPieces]
    have others (next : Formals β) (added : next.Lists (done ++ [first])) := ih second added
    simp only [append_assoc, singleton_append] at others
    rw [spelled]
    refine Repeats.again ?_ ?_ others
    · refine .ifInside (by simp [nextLexeme]) ?_
      refine .bind (addParameter_obtains first lists (by rintro ⟨⟩)) fun after added => ?_
      exact .unlessMark (by rintro ⟨⟩) (.after .expect (.pure ⟨after, rfl, added⟩))
    · simp only [length_append, length_cons]
      omega

theorem parameters_obtains {β : Type} {blame : Token → β} {restricted : Option β} (names : List Name) :
    Obtains src (inParens (Name.listPieces names) ++ rest) f (parameters reader blame restricted)
      (fun found => found.Lists names) rest f c := by
  rw [inParens_append]
  refine .after .expect ?_
  cases names with
  | nil => exact .ifMark rfl (.after .pure (.after .expect (.pure ⟨rfl, rfl⟩)))
  | cons first more =>
    have other : nextLexeme (Name.listPieces (first :: more) ++ Piece.mark .closeParen :: rest) ≠
        .punctuator .closeParen := by
      simp [Name.listPieces, nextLexeme]
    have empty : Formals.Lists { firstRestricted := restricted } ([] : List Name) := ⟨rfl, rfl⟩
    refine .unlessMark other (.bind (parameters_loop first more empty).repeated ?_)
    exact fun found lists => .after .expect (.pure lists)

theorem bodyThen_reads {body : ParseM Node} {check : ParseM Unit}
    (reads : Reads src pieces f body node rest g c) (checks : Reads src rest g check ⟨⟩ rest g c) :
    Reads src pieces f (bodyThen body check) node rest g c := by
  intro p stands
  have restores : Reads src rest g (modify fun q => { q with strict := p.strict }) ⟨⟩ rest g c := by
    refine .change fun q stands' => ?_
    exact stands'.apart .rfl (stands.strict.trans stands'.strict.symm)
      stands'.settled stands'.target
  have run : Reads src pieces f (do
      let result ← body
      check
      modify fun q => { q with strict := p.strict }
      pure result) node rest g c := .bind reads (.bind checks (.bind restores .pure))
  exact .get_bind (run p stands)

theorem functionBody_reads (items : ∀ s ∈ body, Recovers src { c with
      labels := []
      inIteration := false
      inSwitch := false
      inFunctionBody := true
      parenthesizedCount := some 0 } (reader .listItem) s) :
    Reads src (inBraces (Statement.listPieces body) ++ rest) false (functionBody reader)
      (.blockStatement (toNodes body)) rest false c := by
  have plain : (nextLexeme (Statement.listPieces body ++ Piece.mark .closeBrace :: rest)).startsStatement =
      true ∨ nextLexeme (Statement.listPieces body ++ Piece.mark .closeBrace :: rest) =
        .punctuator .closeBrace := by
    cases body with
    | nil => exact .inr rfl
    | cons first body =>
      obtain ⟨piece, more, spelled, starts⟩ := first.starts
      left
      simpa [Statement.listPieces, spelled, nextLexeme] using starts
  have noDirectives : Reads src (Statement.listPieces body ++ Piece.mark .closeBrace :: rest) false
      (directives reader) [] (Statement.listPieces body ++ Piece.mark .closeBrace :: rest) false c := by
    apply Reads.noDirectives
    · rintro isEnd
      rw [isEnd] at plain
      simp [startsStatement] at plain
    · intro value octal isString
      rw [isString] at plain
      simp [startsStatement] at plain
  rw [inBraces, cons_append, append_assoc]
  refine .bind .expect (.bind noDirectives (.context (.bind .changeContext ?_)))
  exact .bind (statementsFrom_reads items) (.bind .expect (.bind .changeContext .pure))

theorem functionTail_obtains {name : Name} {params : List Name}
    (reads : Reads src pieces false (functionBody reader) node rest false c) :
    Obtains src (name.piece :: (inParens (Name.listPieces params) ++ pieces)) false
      (functionTail reader false) (fun (id, formals, block) => id = some name.toNode ∧
        formals.Lists params ∧ block = node) rest false c := by
  have named : nextLexeme (name.piece :: (inParens (Name.listPieces params) ++ pieces)) ≠
      .punctuator .openParen := by
    simp [nextLexeme]
  have found : Obtains src (name.piece :: (inParens (Name.listPieces params) ++ pieces)) false
      (some <$> functionName) (fun id => id.map Prod.fst = some name.text)
      (inParens (Name.listPieces params) ++ pieces) false c :=
    .map (functionName_obtains name) fun _ same => congrArg some same
  refine .unlessMark named (.bind found fun id same => ?_)
  refine .bind (parameters_obtains params) fun formals lists => ?_
  -- Nothing is refused after the body, since the code is still not strict.
  refine .after (bodyThen_reads reads (.unlessStrict .pure)) (.pure ⟨?_, lists, rfl⟩)
  rw [← Option.map_map, same]
  rfl

end Grammar

end EcmaScript
