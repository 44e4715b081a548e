import EcmaScript.Proofs.StatementReading

/-!
Printing and parsing statements. A reader of some depth reads all statements that have no more pieces
than that, as long as their jumps and labels obey the scope that the context stands for. The induction
is on the statement. Main statement: a printed list of statements is read as these statements and the
empty statement of the sentinel.
-/

namespace EcmaScript

open Parse Grammar List Node

variable {src : Source}
variable {ss : List Statement}
variable {pieces : List Piece}

namespace Statement

/-! ### Lists of statements -/

theorem toNodes_eq (ss : List Statement) : toNodes ss = ss.map toNode := by
  induction ss with
  | nil => rfl
  | cons first ss ih => rw [toNodes, ih, map_cons]

theorem mem_toNodes {s : Statement} (member : s ∈ ss) : s.toNode ∈ toNodes ss := by
  rw [toNodes_eq]
  exact mem_map_of_mem member

variable {clauses : List (Name × List Statement)}

theorem mem_toClauses {clause : Name × List Statement} (member : clause ∈ clauses) :
    .switchCase (some clause.1.toNode) (toNodes clause.2) ∈ toClauses clauses := by
  induction clauses with
  | nil => cases member
  | cons first clauses ih =>
    rw [toClauses]
    rcases mem_cons.mp member with rfl | later
    · exact mem_cons_self
    · exact mem_cons_of_mem _ (ih later)

theorem length_le_listPieces {s : Statement} (member : s ∈ ss) :
    s.pieces.length ≤ (listPieces ss).length := by
  induction ss with
  | nil => cases member
  | cons first ss ih =>
    rw [listPieces, length_append]
    rcases mem_cons.mp member with rfl | later
    · omega
    · have := ih later
      omega

theorem length_le_clausePieces {clause : Name × List Statement} (member : clause ∈ clauses) :
    (listPieces clause.2).length ≤ (clausePieces clauses).length := by
  induction clauses with
  | nil => cases member
  | cons first clauses ih =>
    simp only [clausePieces, length_cons, length_append]
    rcases mem_cons.mp member with rfl | later
    · omega
    · have := ih later
      omega

@[simp] theorem length_inBraces (pieces : List Piece) : (inBraces pieces).length = pieces.length + 2 := by
  simp [inBraces]

/-! ### Statements in a scope -/

theorem obeys_of_block {scope : Scope}
    (obeys : (Node.blockStatement (toNodes ss)).Obeys scope) : ∀ s ∈ ss, s.toNode.Obeys scope :=
  fun _ member => obeys.part none (mem_bare.mpr ⟨rfl, mem_toNodes member⟩)

theorem obeys_of_clause {test : Option Node} {scope : Scope}
    (obeys : (Node.switchCase test (toNodes ss)).Obeys scope) : ∀ s ∈ ss, s.toNode.Obeys scope := by
  intro s member
  refine obeys.part none (mem_bare.mpr ⟨rfl, ?_⟩)
  exact mem_append_right _ (mem_toNodes member)

/-- Readers that are deep enough read the statement back wherever its jumps are lawful. -/
def Readable (src : Source) (s : Statement) : Prop :=
  ∀ (c : Context) (d : Nat), s.toNode.Obeys c.scope → s.pieces.length ≤ d →
    Recovers src c (statement (readerOf d)) s ∧ Recovers src c (listItem (readerOf d)) s

namespace Readable

attribute [local simp] pieces toNode Node.parts

variable {s : Statement} {ss : List Statement} {c : Context} {d : Nat} {rest : List Piece}

theorem nested (readable : s.Readable src) (obeys : s.toNode.Obeys c.scope)
    (enough : s.pieces.length < d) : Recovers src c (readerOf d .statement) s := by
  cases d with
  | zero => omega
  | succ d => exact (readable c d obeys (Nat.le_of_lt_succ enough)).1

theorem items (readable : ∀ s ∈ ss, s.Readable src) (obeys : ∀ s ∈ ss, s.toNode.Obeys c.scope)
    (enough : (listPieces ss).length < d) : ∀ s ∈ ss, Recovers src c (readerOf d .listItem) s := by
  intro s member
  have short := length_le_listPieces member
  cases d with
  | zero => omega
  | succ d => exact (readable s member c d (obeys s member) (by omega)).2

/-- Only a function is an item of a list without being read by the rule for statements. -/
theorem intro {piece : Piece} (starts : s.pieces = piece :: pieces)
    (first : piece.lexeme.startsStatement = true) (notFunction : piece.lexeme ≠ .keyword .function)
    (reads : ∀ (c : Context) (d : Nat), s.toNode.Obeys c.scope → s.pieces.length ≤ d →
      Recovers src c (statement (readerOf d)) s) : s.Readable src := by
  intro c d obeys enough
  refine ⟨reads c d obeys enough, fun rest follows => ?_⟩
  have item := reads c d obeys enough rest follows
  rw [starts] at item ⊢
  exact listItem_of_statement first notFunction item

theorem ofKeyword {word : Keyword}
    (starts : s.pieces = .keyword word :: pieces) (reserved : (Piece.keyword word).lexeme = .keyword word)
    (first : (Lexeme.keyword word).startsStatement = true) (notFunction : word ≠ .function)
    (reads : ∀ (c : Context) (d : Nat) (rest : List Piece), s.toNode.Obeys c.scope →
      s.pieces.length ≤ d → Follows rest → Reads src (.keyword word :: (pieces ++ rest)) true
        (keywordStatement (readerOf d) word) s.toNode rest false c) : s.Readable src := by
  refine .intro starts (reserved ▸ first) (by simpa [reserved] using notFunction) ?_
  intro c d obeys enough rest follows
  rw [starts]
  exact statement_of_keyword reserved (reads c d rest obeys enough follows)

/-- The body of a loop. -/
theorem body {node : Node} (readable : s.Readable src) (obeys : node.Obeys c.scope)
    (isBody : (some .loopBody, s.toNode) ∈ node.parts) (enough : s.pieces.length < d) :
    Recovers src { c with inIteration := true } (readerOf d .statement) s :=
  readable.nested (obeys.part (some .loopBody) isBody) enough

theorem inBlock {node : Node} (readable : ∀ s ∈ ss, s.Readable src) (obeys : node.Obeys c.scope)
    (isPart : (none, Node.blockStatement (toNodes ss)) ∈ node.parts) (enough : (listPieces ss).length < d) :
    Reads src (inBraces (listPieces ss) ++ rest) false (Grammar.block (readerOf d))
      (.blockStatement (toNodes ss)) rest false c :=
  block_reads (items readable (obeys_of_block (obeys.part none isPart)) enough)

/-! ### One lemma for each kind of statement -/

theorem empty : Readable src .empty := by
  refine .intro rfl rfl (by nofun) fun c d obeys enough rest follows => ?_
  exact statement_empty.forget

theorem expression (name : Name) : Readable src (.expression name) := by
  refine .intro rfl ?_ ?_ fun c d obeys enough rest follows => ?_
  · simp [Lexeme.startsStatement]
  · simp
  · exact statement_of_name (.bind (expression_reads name rfl (by rintro ⟨⟩))
      (.unlessMark (by rintro ⟨⟩) (.bind .consumeSemicolon .pure)))

theorem block (readable : ∀ s ∈ ss, s.Readable src) : Readable src (.block ss) := by
  refine .intro rfl rfl (by nofun) fun c d obeys enough rest follows => ?_
  refine statement_of_block (block_reads (items readable (obeys_of_block obeys) ?_))
  simp only [pieces, length_inBraces] at enough
  omega

theorem var (first : Declarator) (more : List Declarator) : Readable src (.var first more) := by
  refine .ofKeyword rfl rfl rfl (by nofun) fun c d rest obeys enough follows => ?_
  rw [append_assoc]
  cases d with
  | zero => simp [pieces] at enough
  | succ d =>
    refine .anyTarget (.bind (.expectKeyword rfl) (.bind ?_ (.bind .consumeSemicolon .pure)))
    exact variableDeclarators_reads (readerOf_readsNames d) first more rfl (by nofun)

theorem labeled {label : Name} (body : s.Readable src) : Readable src (.labeled label s) := by
  refine .intro rfl ?_ ?_ fun c d obeys enough rest follows => ?_
  · simp [Lexeme.startsStatement]
  · simp
  · obtain ⟨name, fresh, same⟩ := (obeys_iff.mp obeys).1
    cases same
    have inner : s.toNode.Obeys (c.scope.within [.label label.text]) :=
      obeys.part (some (.label label.text)) (by simp [toNode, Node.parts, Name.toNode, Node.name?])
    simp only [pieces, length_cons] at enough
    have reads : Recovers src { c with labels := c.labels ++ [label.text] } (readerOf d .statement) s :=
      body.nested inner (by omega)
    exact statement_of_name (expressionOrLabel_labeled fresh (reads rest follows).anyTarget)

variable {test : Name}

theorem if_ (body : s.Readable src) : Readable src (.if_ test s) := by
  refine .ofKeyword rfl rfl rfl (by nofun) fun c d rest obeys enough follows => ?_
  have inner : s.toNode.Obeys c.scope := obeys.part none (by simp)
  simp only [pieces, length_cons, length_append] at enough
  rw [append_assoc]
  refine .anyTarget (.bind (.expectKeyword rfl) (.bind (headExpression_reads test) ?_))
  exact .bind (body.nested inner (by omega) rest follows) (.unlessKeyword (follows.ne rfl) .pure)

theorem ifElse (consequent : ∀ s ∈ ss, s.Readable src) (alternate : s.Readable src) :
    Readable src (.ifElse test ss s) := by
  refine .ofKeyword rfl rfl rfl (by nofun) fun c d rest obeys enough follows => ?_
  have yes : (Node.blockStatement (toNodes ss)).Obeys c.scope :=
    obeys.part none (by simp)
  have no : s.toNode.Obeys c.scope := obeys.part none (by simp)
  simp only [pieces, length_cons, length_append, length_inBraces] at enough
  simp only [append_assoc, cons_append]
  refine .anyTarget (.bind (.expectKeyword rfl) (.bind (headExpression_reads test) ?_))
  cases d with
  | zero => omega
  | succ d =>
    refine .bind (statement_of_block (block_reads (items consequent (obeys_of_block yes) (by omega)))) ?_
    exact .ifKeyword rfl (.bind .drop (.bind (alternate.nested no (by omega) rest follows) .pure))

theorem while_ (readable : s.Readable src) : Readable src (.while_ test s) := by
  refine .ofKeyword rfl rfl rfl (by nofun) fun c d rest obeys enough follows => ?_
  simp only [pieces, length_cons, length_append] at enough
  have body := readable.body obeys (by simp) (show _ < d by omega)
  rw [append_assoc]
  refine .anyTarget (.bind (.expectKeyword rfl) (.bind (headExpression_reads test) ?_))
  exact .bind (loopBody_reads (body rest follows)) .pure

theorem doWhile (readable : s.Readable src) : Readable src (.doWhile s test) := by
  refine .ofKeyword rfl rfl rfl (by nofun) fun c d rest obeys enough follows => ?_
  simp only [pieces, length_cons, length_append] at enough
  have body := readable.body obeys (by simp) (show _ < d by omega)
  simp only [append_assoc, cons_append, nil_append]
  refine .anyTarget (.bind (.expectKeyword rfl) (.bind (loopBody_reads (body _ ?_)) ?_))
  · exact ⟨cons_ne_nil _ _, rfl⟩
  refine .bind (.expectKeyword rfl) (.bind (headExpression_reads test) ?_)
  exact .ifMark rfl (.bind .drop .pure)

theorem for_ {init : Option ForInit} {test update : Option Name} (readable : s.Readable src) :
    Readable src (.for_ init test update s) := by
  refine .ofKeyword rfl rfl rfl (by nofun) fun c d rest obeys enough follows => ?_
  simp only [pieces, length_cons, length_append, length_inParens] at enough
  have body := readable.body obeys (by simp) (show _ < d by omega)
  rw [append_assoc]
  cases d with
  | zero => omega
  | succ d =>
    have names : ReadsNames src (readerOf (d + 1)) := readerOf_readsNames d
    exact (forStatement_reads (fun _ => forHead_counting names init test update) body follows).forget

theorem forIn {left : ForTarget} {right : Name} (readable : s.Readable src) :
    Readable src (.forIn left right s) := by
  refine .ofKeyword rfl rfl rfl (by nofun) fun c d rest obeys enough follows => ?_
  simp only [pieces, length_cons, length_append, length_inParens] at enough
  have body := readable.body obeys (by simp) (show _ < d by omega)
  rw [append_assoc]
  cases d with
  | zero => omega
  | succ d =>
    have names : ReadsNames src (readerOf (d + 1)) := readerOf_readsNames d
    exact (forStatement_reads (fun _ => forHead_enumerating names left right) body follows).forget

theorem break_ (label : Option Name) : Readable src (.break_ label) := by
  refine .ofKeyword rfl rfl rfl (by nofun) fun c d rest obeys enough follows => ?_
  rw [append_assoc]
  refine .anyTarget (.bind (.expectKeyword rfl) (.lastMark fun mark foretold => ?_))
  obtain ⟨ch, found, bare⟩ := foretold_label foretold
  refine .characterAt found (.bind (jumpTail_reads ?_ (bare ∘ of_decide_eq_true) follows.nonempty) .pure)
  have lawful := (obeys_iff.mp obeys).1
  cases label with
  | none => exact Bool.or_eq_true_iff.mpr lawful
  | some label =>
    obtain ⟨name, known, ⟨⟩⟩ := lawful
    exact known

theorem continue_ (label : Option Name) : Readable src (.continue_ label) := by
  refine .ofKeyword rfl rfl rfl (by nofun) fun c d rest obeys enough follows => ?_
  rw [append_assoc]
  refine .anyTarget (.bind (.expectKeyword rfl) (.startMark fun mark foretold => ?_))
  obtain ⟨ch, found, bare⟩ := foretold_label foretold
  refine .characterAt found (.bind (jumpTail_reads ?_ (bare ∘ of_decide_eq_true) follows.nonempty) .pure)
  have lawful := (obeys_iff.mp obeys).1
  cases label with
  | none => exact lawful
  | some label =>
    obtain ⟨name, known, ⟨⟩⟩ := lawful
    exact known

theorem return_ (argument : Option Name) : Readable src (.return_ argument) := by
  refine .ofKeyword rfl rfl rfl (by nofun) fun c d rest obeys enough follows => ?_
  have inFunction : c.inFunctionBody = true := (obeys_iff.mp obeys).1
  rw [append_assoc]
  refine .anyTarget (.bind (.expectKeyword rfl) (.context ?_))
  rw [if_pos inFunction]
  refine Obtains.bind nameFollows_obtains fun seen named => ?_
  cases argument with
  | some argument =>
    -- Both ways the argument is read, whether it was seen to follow or not.
    have reads : Reads src (argument.piece :: .mark .semicolon :: rest) false
        (Grammar.expression (readerOf d)) argument.toNode (.mark .semicolon :: rest) false c :=
      expression_reads argument rfl (by nofun)
    refine Reads.ite (.bind reads (.bind .consumeSemicolon .pure)) ?_
    refine .afterLineBreak (fun isLast => ?_) (.lookahead fun token isFirst => ?_)
    · exact absurd isLast (not_last [argument.piece] follows.nonempty)
    · rw [if_neg (by simp [isFirst.1])]
      exact .bind reads.map (.bind .consumeSemicolon .pure)
  | none =>
    rw [if_neg fun isSeen => named isSeen rfl]
    refine Reads.afterLineBreak (fun isLast => ?_) (.lookahead fun token isFirst => ?_)
    · exact absurd isLast (not_last [] follows.nonempty)
    · rw [if_pos (by simp [show token.lexeme = .punctuator .semicolon from isFirst.1])]
      exact .bind .pure (.bind .consumeSemicolon .pure)

theorem throw (argument : Name) : Readable src (.throw argument) := by
  refine .ofKeyword rfl rfl rfl (by nofun) fun c d rest obeys enough follows => ?_
  refine .anyTarget (.bind (.expectKeyword rfl) (.afterLineBreak (fun isLast => ?_) ?_))
  · exact absurd isLast (not_last [argument.piece] follows.nonempty)
  · exact .bind (expression_reads argument rfl (by nofun)) (.bind .consumeSemicolon .pure)

theorem with_ {object : Name} (body : s.Readable src) : Readable src (.with_ object s) := by
  refine .ofKeyword rfl rfl rfl (by nofun) fun c d rest obeys enough follows => ?_
  have inner : s.toNode.Obeys c.scope := obeys.part none (by simp)
  simp only [pieces, length_cons, length_append] at enough
  rw [append_assoc]
  refine .anyTarget (.unlessStrict (.bind (.expectKeyword rfl) (.bind (headExpression_reads object) ?_)))
  exact .bind (body.nested inner (by omega) rest follows) .pure

theorem debugger : Readable src .debugger := by
  refine .ofKeyword rfl rfl rfl (by nofun) fun c d rest obeys enough follows => ?_
  exact .anyTarget (.bind (.expectKeyword rfl) (.bind .consumeSemicolon .pure))

variable {handler finalizer : List Statement}

theorem tryCatch {param : Name} (readable : ∀ s ∈ ss ++ handler, s.Readable src) :
    Readable src (.tryCatch ss param handler) := by
  refine .ofKeyword rfl rfl rfl (by nofun) fun c d rest obeys enough follows => ?_
  obtain ⟨tried, handled⟩ := forall_mem_append.mp readable
  have clause : (Node.catchClause param.toNode (.blockStatement (toNodes handler))).Obeys c.scope :=
    obeys.part none (by simp)
  simp only [pieces, length_cons, length_append, length_inBraces] at enough
  simp only [append_assoc, cons_append]
  refine .anyTarget (.bind (.expectKeyword rfl) (.bind
    (inBlock tried obeys (by simp) (by omega)) (.ifKeyword rfl (.bind (.map
    (catchClause_reads (inBlock handled clause (by simp [Node.parts]) (by omega)))) ?_))))
  exact .unlessKeyword (follows.ne rfl) (.bind .pure .pure)

theorem tryFinally (readable : ∀ s ∈ ss ++ finalizer, s.Readable src) :
    Readable src (.tryFinally ss finalizer) := by
  refine .ofKeyword rfl rfl rfl (by nofun) fun c d rest obeys enough follows => ?_
  obtain ⟨tried, finished⟩ := forall_mem_append.mp readable
  simp only [pieces, length_cons, length_append, length_inBraces] at enough
  simp only [append_assoc, cons_append]
  have noHandler : (Piece.keyword .finally_).lexeme ≠ .keyword .catch_ := by decide
  refine .anyTarget (.bind (.expectKeyword rfl) (.bind
    (inBlock tried obeys (by simp) (by omega)) (.unlessKeyword noHandler ?_)))
  exact .bind .pure (.ifKeyword rfl (.bind .drop (.bind (.map
    (inBlock finished obeys (by simp) (by omega))) .pure)))

theorem tryCatchFinally {param : Name} (readable : ∀ s ∈ ss ++ (handler ++ finalizer), s.Readable src) :
    Readable src (.tryCatchFinally ss param handler finalizer) := by
  refine .ofKeyword rfl rfl rfl (by nofun) fun c d rest obeys enough follows => ?_
  obtain ⟨tried, others⟩ := forall_mem_append.mp readable
  obtain ⟨handled, finished⟩ := forall_mem_append.mp others
  have clause : (Node.catchClause param.toNode (.blockStatement (toNodes handler))).Obeys c.scope :=
    obeys.part none (by simp)
  simp only [pieces, length_cons, length_append, length_inBraces] at enough
  simp only [append_assoc, cons_append]
  refine .anyTarget (.bind (.expectKeyword rfl) (.bind
    (inBlock tried obeys (by simp) (by omega)) (.ifKeyword rfl (.bind (.map
    (catchClause_reads (inBlock handled clause (by simp [Node.parts]) (by omega)))) ?_))))
  exact .ifKeyword rfl (.bind .drop (.bind (.map
    (inBlock finished obeys (by simp) (by omega))) .pure))

variable {clauses after : List (Name × List Statement)}

theorem clauseItems (readable : ∀ clause ∈ clauses, ∀ s ∈ clause.2, s.Readable src)
    (obeys : ∀ node ∈ toClauses clauses, node.Obeys c.scope)
    (enough : (clausePieces clauses).length < d) :
    ∀ clause ∈ clauses, ∀ s ∈ clause.2, Recovers src c (readerOf d .listItem) s := by
  intro clause member
  have short := length_le_clausePieces member
  exact items (readable clause member) (obeys_of_clause (obeys _ (mem_toClauses member))) (by omega)

theorem switch {discriminant : Name} (readable : ∀ clause ∈ clauses, ∀ s ∈ clause.2, s.Readable src) :
    Readable src (.switch discriminant clauses) := by
  refine .ofKeyword rfl rfl rfl (by nofun) fun c d rest obeys enough follows => ?_
  have inner : ∀ node ∈ toClauses clauses, node.Obeys (c.scope.within [.switchClauses]) :=
    fun node member => obeys.part (some .switchClauses) (by simp [toNode, Node.parts, member])
  simp only [pieces, length_cons, length_append, length_inBraces] at enough
  rw [append_assoc]
  refine (switchStatement_reads ?_ ?_ (switchCases_reads (clauseItems readable inner ?_))).anyTarget
  · cases clauses with
    | nil => exact fun _ => rfl
    | cons => simp [clausePieces]
  · cases clauses with
    | nil => simp [clausePieces]
    | cons =>
      intro _ isBrace
      cases isBrace
  · omega

theorem switchDefault {discriminant : Name}
    (readable : ∀ clause ∈ clauses ++ after, ∀ s ∈ clause.2, s.Readable src)
    (otherwise : ∀ s ∈ ss, s.Readable src) :
    Readable src (.switchDefault discriminant clauses ss after) := by
  refine .ofKeyword rfl rfl rfl (by nofun) fun c d rest obeys enough follows => ?_
  have inner : ∀ node ∈ toClauses clauses ++ .switchCase none (toNodes ss) :: toClauses after,
      node.Obeys (c.scope.within [.switchClauses]) := by
    intro node member
    apply obeys.part (some .switchClauses)
    simpa [toNode, Node.parts] using member
  obtain ⟨outer, within⟩ := forall_mem_append.mp inner
  obtain ⟨default, later⟩ := forall_mem_cons.mp within
  obtain ⟨readsBefore, readsAfter⟩ := forall_mem_append.mp readable
  simp only [pieces, length_cons, length_append, length_inBraces] at enough
  rw [append_assoc]
  refine (switchStatement_reads ?_ ?_ ?_).anyTarget
  · simp
  · intro _
    cases clauses with
    | nil => intro isBrace; cases isBrace
    | cons => intro isBrace; cases isBrace
  · simp only [append_assoc, cons_append]
    refine switchCases_default (forall_mem_append.mpr ⟨?_, ?_⟩) ?_
    · exact clauseItems readsBefore outer (by omega)
    · exact clauseItems readsAfter later (by omega)
    · exact items otherwise (obeys_of_clause default) (by omega)

theorem function {name : Name} {params : List Name} (body : ∀ s ∈ ss, s.Readable src) :
    Readable src (.function name params ss) := by
  intro c d obeys enough
  have inner : (Node.blockStatement (toNodes ss)).Obeys (c.scope.within [.functionBody]) :=
    obeys.part (some .functionBody) (by simp)
  simp only [pieces, length_cons, length_append, length_inBraces] at enough
  have reads (rest : List Piece) : Reads src ((Statement.function name params ss).pieces ++ rest) false
      (functionDeclaration (readerOf d) false) (Statement.function name params ss).toNode rest false
      c := by
    simp only [pieces, cons_append, append_assoc]
    refine .bind (.expectKeyword rfl) (Obtains.bind (functionTail_obtains (functionBody_reads
      (items body (obeys_of_block inner) (by omega)))) ?_)
    rintro ⟨id, formals, block⟩ ⟨rfl, lists, rfl⟩
    refine .pure ?_
    rw [lists.1, lists.effectiveDefaults]
    rfl
  constructor
  · exact fun rest _ => statement_of_keyword rfl (reads rest).anyTarget
  · intro rest _
    refine .lookahead fun token isFirst => ?_
    rw [show token.lexeme = .keyword .function from isFirst.1]
    exact reads rest

end Readable

mutual

theorem readable : ∀ s : Statement, s.Readable src
  | .empty => .empty
  | .expression name => .expression name
  | .block body => .block (all_readable body)
  | .var first more => .var first more
  | .if_ _ consequent => .if_ consequent.readable
  | .ifElse _ consequent alternate => .ifElse (all_readable consequent) alternate.readable
  | .while_ _ body => .while_ body.readable
  | .doWhile body _ => .doWhile body.readable
  | .for_ _ _ _ body => .for_ body.readable
  | .forIn _ _ body => .forIn body.readable
  | .labeled _ body => .labeled body.readable
  | .break_ label => .break_ label
  | .continue_ label => .continue_ label
  | .return_ argument => .return_ argument
  | .throw argument => .throw argument
  | .tryCatch body _ handler =>
    .tryCatch (forall_mem_append.mpr ⟨all_readable body, all_readable handler⟩)
  | .tryFinally body finalizer =>
    .tryFinally (forall_mem_append.mpr ⟨all_readable body, all_readable finalizer⟩)
  | .tryCatchFinally body _ handler finalizer =>
    .tryCatchFinally (forall_mem_append.mpr ⟨all_readable body,
      forall_mem_append.mpr ⟨all_readable handler, all_readable finalizer⟩⟩)
  | .switch _ clauses => .switch (clauses_readable clauses)
  | .switchDefault _ before default after =>
    .switchDefault (forall_mem_append.mpr ⟨clauses_readable before, clauses_readable after⟩)
      (all_readable default)
  | .with_ _ body => .with_ body.readable
  | .debugger => .debugger
  | .function _ _ body => .function (all_readable body)

theorem all_readable : ∀ (ss : List Statement), ∀ s ∈ ss, s.Readable src
  | [] => nofun
  | first :: rest => forall_mem_cons.mpr ⟨first.readable, all_readable rest⟩

theorem clauses_readable : ∀ (clauses : List (Name × List Statement)),
    ∀ clause ∈ clauses, ∀ s ∈ clause.2, s.Readable src
  | [] => nofun
  | (_, body) :: rest =>
    forall_mem_cons.mpr ⟨all_readable body, clauses_readable rest⟩

end

end Statement

/-! ### Braces -/

theorem Neutral.keyword (word : Keyword) (neutral : Neutral pieces) : Neutral (.keyword word :: pieces) :=
  .cons (fun _ => rfl) neutral

theorem Neutral.name (name : Name) (neutral : Neutral pieces) : Neutral (name.piece :: pieces) :=
  .cons (fun _ => rfl) neutral

theorem Neutral.name? (name : Option Name) : Neutral (Name.pieces? name) := by
  cases name with
  | none => exact .nil
  | some name => exact .name name .nil

theorem Neutral.semicolon : Neutral [.mark .semicolon] :=
  .single fun _ => rfl

theorem Neutral.head (word : Keyword) (name : Name) (neutral : Neutral pieces) :
    Neutral (.keyword word :: (EcmaScript.inParens [name.piece] ++ pieces)) :=
  .keyword word ((Neutral.name name .nil).inParens.append neutral)

theorem Declarator.neutral (declarator : Declarator) : Neutral declarator.pieces := by
  obtain ⟨name, init⟩ := declarator
  cases init with
  | none => exact .name name .nil
  | some init => exact .name name (.cons (fun _ => rfl) (.name init .nil))

theorem Declarator.list_neutral (first : Declarator) (more : List Declarator) :
    Neutral (Declarator.listPieces first more) := by
  refine first.neutral.append ?_
  induction more with
  | nil => exact .nil
  | cons next more ih => exact .cons (fun _ => rfl) (next.neutral.append ih)

theorem ForInit.neutral? (init : Option ForInit) : Neutral (ForInit.pieces? init) := by
  cases init with
  | none => exact .nil
  | some init =>
    cases init with
    | expression name => exact .name name .nil
    | var first more => exact .keyword .var (Declarator.list_neutral first more)

theorem ForTarget.neutral (target : ForTarget) : Neutral target.pieces := by
  cases target with
  | name name => exact .name name .nil
  | declared declarator => exact .keyword .var declarator.neutral

theorem Name.list_neutral (names : List Name) : Neutral (Name.listPieces names) := by
  cases names with
  | nil => exact .nil
  | cons first more =>
    refine .name first ?_
    induction more with
    | nil => exact .nil
    | cons next more ih => exact .cons (fun _ => rfl) (.name next ih)

namespace Statement

mutual

theorem neutral : ∀ s : Statement, Neutral s.pieces
  | .empty => .semicolon
  | .expression name => .name name .semicolon
  | .block body => (list_neutral body).inBraces
  | .var first more => .keyword .var ((Declarator.list_neutral first more).append .semicolon)
  | .if_ test consequent => .head .if_ test consequent.neutral
  | .ifElse test consequent alternate =>
    .head .if_ test ((list_neutral consequent).inBraces.append (.keyword .else_ alternate.neutral))
  | .while_ test body => .head .while_ test body.neutral
  | .doWhile body test => .keyword .do_ (body.neutral.append (.head .while_ test .semicolon))
  | .for_ init test update body =>
    .keyword .for_ (((ForInit.neutral? init).append (.cons (fun _ => rfl) ((Neutral.name? test).append
      (.cons (fun _ => rfl) (.name? update))))).inParens.append body.neutral)
  | .forIn left right body =>
    .keyword .for_ ((left.neutral.append (.keyword .in_ (.name right .nil))).inParens.append body.neutral)
  | .labeled label body => .name label (.cons (fun _ => rfl) body.neutral)
  | .break_ label => .keyword .break_ ((Neutral.name? label).append .semicolon)
  | .continue_ label => .keyword .continue_ ((Neutral.name? label).append .semicolon)
  | .return_ argument => .keyword .return_ ((Neutral.name? argument).append .semicolon)
  | .throw argument => .keyword .throw (.name argument .semicolon)
  | .tryCatch body param handler =>
    .keyword .try_ ((list_neutral body).inBraces.append
      (.head .catch_ param (list_neutral handler).inBraces))
  | .tryFinally body finalizer =>
    .keyword .try_ ((list_neutral body).inBraces.append
      (.keyword .finally_ (list_neutral finalizer).inBraces))
  | .tryCatchFinally body param handler finalizer =>
    .keyword .try_ ((list_neutral body).inBraces.append (.head .catch_ param
      ((list_neutral handler).inBraces.append (.keyword .finally_ (list_neutral finalizer).inBraces))))
  | .switch discriminant clauses => .head .switch discriminant (clauses_neutral clauses).inBraces
  | .switchDefault discriminant before default after =>
    .head .switch discriminant ((clauses_neutral before).append (.keyword .default
      (.cons (fun _ => rfl) ((list_neutral default).append (clauses_neutral after))))).inBraces
  | .with_ object body => .head .with_ object body.neutral
  | .debugger => .keyword .debugger .semicolon
  | .function name params body =>
    .keyword .function (.name name ((Name.list_neutral params).inParens.append
      (list_neutral body).inBraces))

theorem list_neutral : ∀ ss : List Statement, Neutral (listPieces ss)
  | [] => .nil
  | first :: rest => first.neutral.append (list_neutral rest)

theorem clauses_neutral : ∀ clauses : List (Name × List Statement), Neutral (clausePieces clauses)
  | [] => .nil
  | (test, body) :: rest =>
    .keyword .case_ (.name test (.cons (fun _ => rfl)
      ((list_neutral body).append (clauses_neutral rest))))

end

end Statement

/-! ### The text of statements -/

theorem gapBefore_small (apart : Bool) (piece : Piece) :
    gapBefore apart piece = [] ∨ gapBefore apart piece = [0x20] := by
  unfold gapBefore
  split
  · cases apart with
    | true => exact .inr rfl
    | false => exact .inl rfl
  · exact .inr rfl

theorem gapBefore_delimits (apart : Bool) (piece : Piece) (rest : Text) :
    ∃ delimiter more, gapBefore apart piece ++ piece.text ++ rest = delimiter :: more ∧
      isDelimiter delimiter = true := by
  unfold gapBefore
  split
  · cases apart with
    | true => exact ⟨0x20, _, rfl, rfl⟩
    | false => exact ⟨0x3B, _, rfl, rfl⟩
  · exact ⟨0x20, _, rfl, rfl⟩

theorem Spells.behind (apart : Bool) (pieces : List Piece) : Spells (pieces ++ [.mark .semicolon])
        ((pieces.flatMap fun next => gapBefore apart next ++ next.text) ++ Parser.sentinel) ∧
      ∀ piece : Piece, piece.Delimited
        ((pieces.flatMap fun next => gapBefore apart next ++ next.text) ++ Parser.sentinel) := by
  induction pieces with
  | nil => exact ⟨.last, fun _ => .inr ⟨_, _, rfl, rfl⟩⟩
  | cons first pieces ih =>
    obtain ⟨spells, delimited⟩ := ih
    rw [flatMap_cons]
    constructor
    · have more := Spells.next (gapBefore_small apart first) (delimited first) spells
      simpa using more
    · intro piece
      obtain ⟨delimiter, more, starts, delimits⟩ := gapBefore_delimits apart first
        ((pieces.flatMap fun next => gapBefore apart next ++ next.text) ++ Parser.sentinel)
      exact .inr ⟨delimiter, more, by simpa using starts, delimits⟩

theorem Spells.spellOut (apart : Bool) (pieces : List Piece) :
    Spells (pieces ++ [.mark .semicolon]) (spellOut apart pieces ++ Parser.sentinel) := by
  cases pieces with
  | nil => exact .last
  | cons first pieces =>
    obtain ⟨spells, delimited⟩ := Spells.behind apart pieces
    have more := Spells.next (.inl rfl) (delimited first) spells
    simpa [EcmaScript.spellOut] using more

theorem Piece.head_ne_minus {piece : Piece} (starts : piece.lexeme.startsStatement = true) :
    piece.text.head? ≠ some 0x2D := by
  have word (spelledOut : IsSpelledOut piece.text) : piece.text.head? ≠ some 0x2D := by
    intro isMinus
    cases spelledOut.2 0x2D (mem_of_head? isMinus)
  cases piece with
  | mark mark =>
    cases mark
    case openBrace => decide
    case semicolon => decide
    all_goals cases starts
  | quoted | hexadecimal => cases starts
  | keyword reserved => exact word reserved.isSpelledOut
  | word letters => exact word letters.isSpelledOut
  | boolean value => exact word (Lexeme.booleanText_isSpelledOut value)
  | null => exact word null_isSpelledOut

/-! ### Programs -/

theorem Statement.starts_program (ss : List Statement) :
    ∃ piece more, listPieces ss ++ [.mark .semicolon] = piece :: more ∧
      piece.lexeme.startsStatement = true := by
  cases ss with
  | nil => exact ⟨_, _, rfl, rfl⟩
  | cons first ss =>
    obtain ⟨piece, more, spelled, starts⟩ := first.starts
    rw [listPieces, spelled]
    exact ⟨piece, _, rfl, starts⟩

theorem Reads.statements {d : Nat} (items : ∀ s ∈ ss, Recovers src {} (readerOf (d + 1) .listItem) s) :
    Reads src (Statement.listPieces ss ++ [.mark .semicolon]) false
      (Grammar.scriptBody (readerOf (d + 1))) (Statement.toNodes ss ++ [.emptyStatement]) [] false := by
  have noDirectives : Reads src (Statement.listPieces ss ++ [Piece.mark .semicolon]) false
      (directives (readerOf (d + 1))) [] (Statement.listPieces ss ++ [Piece.mark .semicolon]) false := by
    obtain ⟨piece, more, spelled, starts⟩ := Statement.starts_program ss
    rw [spelled]
    apply Reads.noDirectives
    · exact (Lexeme.startsStatement_apart starts).1
    · intro value octal isString
      rw [show piece.lexeme = _ from isString] at starts
      cases starts
  have last : Reads src [.mark .semicolon] false (readerOf (d + 1) .listItem) .emptyStatement []
      false := by
    have item : Reads src [.mark .semicolon] false (statement (readerOf d)) .emptyStatement [] true :=
      statement_empty
    exact (listItem_of_statement rfl (by nofun) item).forget
  refine .bind noDirectives (Loops.repeated (statements_loop ?_ ⟨cons_ne_nil _ _, rfl⟩ ?_))
  · intro s member before rest follows
    have item := items s member rest follows
    obtain ⟨piece, more, spelled, starts⟩ := s.starts
    rw [spelled] at item ⊢
    exact .ifInside (Lexeme.startsStatement_apart starts).1 (.bind item .pure)
  · refine Loops.again (.ifInside (by nofun) (.bind last .pure)) ?_ (Loops.leave (.unlessInside .pure))
    simp

theorem Spells.statements_meets {code : Text} (p : Parser) (lawful : ∀ s ∈ ss, s.toNode.Obeys {})
    (spells : Spells (Statement.listPieces ss ++ [.mark .semicolon]) (code ++ Parser.sentinel)) :
    Meets (deep program) (p.begin code)
      (fun node _ => node = .program (Statement.toNodes ss ++ [.emptyStatement])) noFault := by
  refine spells.script_meets p (Statement.list_neutral ss) (fun piece first => ?_) fun d enough => ?_
  · obtain ⟨piece', more, spelled, starts⟩ := Statement.starts_program ss
    rw [spelled] at first
    cases first
    exact Piece.head_ne_minus starts
  · exact .statements (Statement.Readable.items (Statement.all_readable ss) lawful (by omega))

/-- Every list of statements that are lawful where they stand is read back as it was printed; behind
them comes the empty statement of the sentinel. -/
theorem parse_print_statements (settings : Settings) (apart : Bool)
    (lawful : ∀ s ∈ ss, s.toNode.Obeys {}) : parse settings (Statement.print apart ss) =
      .ok (.program (ss.map Statement.toNode ++ [.emptyStatement])) := by
  have met := (Spells.spellOut apart (Statement.listPieces ss)).statements_meets { settings } lawful
  rw [← Statement.toNodes_eq]
  unfold Meets at met
  unfold parse Parser.program Statement.print
  split at met
  next node q run =>
    rw [run, met]
  next => exact met.elim

/-- A function with a labelled loop that is left by its label. -/
theorem parse_print_statements_labeled_loop :
    ∃ (a b f : Name) (s : Statement), a.text = Text.ofString "a" ∧ b.text = Text.ofString "b" ∧
      s = .function f [a] [.labeled b (.while_ a (.break_ (some b))), .return_ (some a)] ∧
      s.toNode.Obeys {} ∧ Statement.print false [s] =
        Text.ofString "function f ( a ) \x7b b : while ( a ) break b; return a; \x7d" ∧
      parse {} (Statement.print false [s]) = .ok (.program [s.toNode, .emptyStatement]) := by
  let a : Name := ⟨⟨Text.ofString "a", by decide, by decide⟩, by decide, by decide, by decide⟩
  let b : Name := ⟨⟨Text.ofString "b", by decide, by decide⟩, by decide, by decide, by decide⟩
  let f : Name := ⟨⟨Text.ofString "f", by decide, by decide⟩, by decide, by decide, by decide⟩
  let s : Statement :=
    .function f [a] [.labeled b (.while_ a (.break_ (some b))), .return_ (some a)]
  have name (name : Name) (scope : Scope) : name.toNode.Obeys scope :=
    closed_identifier name.text scope
  -- Each frame on the way to the jump adds to the scope that the jump is lawful in.
  have lawful : s.toNode.Obeys {} := by
    refine .of_framed .functionBody trivial (show _ = Node.bare [f.toNode, a.toNode] ++ [_].map _ from rfl)
      (by simp [name]) (forall_mem_singleton.mpr ?_)
    refine .of_bare trivial rfl (forall_mem_cons.mpr ⟨?_, forall_mem_singleton.mpr ?_⟩)
    · refine .of_framed (.label b.text) ⟨b.text, not_mem_nil, rfl⟩
        (show _ = Node.bare [b.toNode] ++ [_].map _ from rfl) (by simp [name]) (forall_mem_singleton.mpr ?_)
      refine .of_framed .loopBody trivial (show _ = Node.bare [a.toNode] ++ [_].map _ from rfl)
        (by simp [name]) (forall_mem_singleton.mpr ?_)
      exact .of_bare ⟨b.text, mem_cons_self, rfl⟩ (show _ = Node.bare [b.toNode] from rfl) (by simp [name])
    · exact .of_bare rfl (show _ = Node.bare [a.toNode] from rfl) (by simp [name])
  refine ⟨a, b, f, s, rfl, rfl, rfl, lawful, by decide, ?_⟩
  exact parse_print_statements {} false (forall_mem_singleton.mpr lawful)

end EcmaScript
