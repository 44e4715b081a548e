import EcmaScript.Proofs.ComparedExpressions

/-!
Statements and programs, compared. Declarations, loops, jumps and all other statements obey a discipline,
and with them the readers for every depth. Where contexts are binding, a statement is judged in the context
around it, which is the one that the parser is in.
-/

namespace EcmaScript

instance : Bears Grammar.ForHead where
  trees
    | .counting init test update => init.toList ++ test.toList ++ update.toList
    | .enumerating left right => [left, right]

namespace Discipline

open Comparison Parse Grammar Node

variable {α : Type} [Bears α] {d : Discipline} {s : Situation} {reader reader' : Reader}

instance consumeSemicolon_idle : d.Idle consumeSemicolon where
  maintains := by
    rw [consumeSemicolon_eq]
    refine .past d.places.firstCharacter fun _ => .ite drop_idle.maintains ?_
    refine .fork drop_idle.maintains ?_
    refine .past d.places.afterLineBreak fun _ => .ite (.pure trivial .nil) ?_
    refine .past (.step fun _ _ _ _ => d.relocated) fun _ => .looking fun t u known same => ?_
    rw [same]
    exact .ite (.pure trivial .nil) (.unexpected known)

/-! ### Parts without nested rules -/

instance refuseRestrictedName_idle (name : Text) (message : Message) : d.Idle (refuseRestrictedName name message) :=
  ⟨.after fun _ => .ite .complain (.pure trivial .nil)⟩

theorem declarator_takes {name : Text} (named : d.name name) {init : Option Node}
    (closed : ∀ node ∈ init, d.expression node) :
    d.Takes s init.toList (pure (.variableDeclarator (.identifier name) init))
      (pure (.variableDeclarator (.identifier name) init)) (Same d.expression) := by
  refine .built (d.plain rfl ?_) (by simp +contextual [parts])
  simpa [usedParts, parts] using ⟨d.identifier.mpr named, closed⟩

theorem declarators_readsAll {m n : ParseM Node} (reads : d.Reads s m n) :
    d.ReadsAll s (declarators m) (declarators n) := by
  have empty : ∀ node ∈ ([] : List Node), d.expression node := by simp
  refine .collected (fun list : List Node => ∀ node ∈ list, d.expression node) (fun list closed => ?_) empty
  refine .bind reads fun next last => ?_
  have all := forall_mem_concat closed last
  refine .fork (.skip ?_) (.pure all .refl)
  exact .past d.places.inside fun _ => .ite (.pure all .refl) (.pure all .refl)

theorem declaration_closed (kind : DeclarationKind) {list : List Node}
    (closed : ∀ node ∈ list, d.expression node) : d.expression (.variableDeclaration kind list) ∧
      Covers list [.variableDeclaration kind list] :=
  ⟨d.plain rfl (by simpa [usedParts, parts] using closed), .of_parts (by simp [parts])⟩

theorem loopBody_upholds {m n : ParseM Node} {answers : Node → Prop}
    (upholds : d.Upholds { s with context := { s.context with inIteration := true } } m n answers) :
    d.Upholds s (loopBody m) (loopBody n) answers :=
  restoring_upholds _ (fun outer c => { c with inIteration := outer.inIteration }) (fun _ => rfl) upholds

def Heads (d : Discipline) (head : ForHead) : Prop :=
  ∀ node ∈ trees head, d.expression node

theorem withoutIn_upholds {outer : Context} (bound : d.binding → outer = s.context) {m n : ParseM α}
    {answers : α → Prop} (upholds : ∀ s, d.Upholds s m n answers) :
    d.Upholds s (withoutIn outer m) (withoutIn outer n) answers :=
  d.scopes.undone (fun c => { c with allowIn := false }) (fun c => { c with allowIn := outer.allowIn }) id
    (fun binding => by rw [bound binding]) (fun _ => .refl) (upholds _)

theorem checkJump_upholds (allowed : Context → Bool) (message : Message) :
    d.Upholds s (checkJump allowed message) (checkJump allowed message)
      fun _ => d.binding → allowed s.context = true :=
  .learn context_upholds fun _ bound => .dite
    (fun met => .pure (fun binding => bound binding ▸ met) .nil) fun _ => .complain

/-- A label names a statement around the jump. -/
def Targets (d : Discipline) (c : Context) (text : Text) : Prop :=
  d.name text ∧ (d.binding → text ∈ c.labels)

theorem jumpLabel?_upholds :
    d.Upholds s jumpLabel? jumpLabel? fun label => ∀ text ∈ label, d.Targets s.context text := by
  refine .looking fun t u _ same => ?_
  rw [same]
  split
  · refine .learn bindingName_upholds fun name named => .learn context_upholds fun c bound => ?_
    refine .dite (fun known => .pure ?_ .nil) fun _ => .complain
    simpa using ⟨named, fun binding => bound binding ▸ List.contains_iff_mem.mp known⟩
  · exact .pure (by simp) .nil

theorem jumpTail_upholds (allowed : Context → Bool) (message : Message) (immediate : Bool) :
    d.Upholds s (jumpTail allowed message immediate) (jumpTail allowed message immediate) fun found =>
      ∃ label : Option Text, found = label.map .identifier ∧ (∀ text ∈ label, d.Targets s.context text) ∧
        (d.binding → label = none → allowed s.context = true) := by
  refine .joined (fun unlabeled => .ite (.skip <| unlabeled)
    (.past d.places.afterLineBreak fun _ => .ite unlabeled ?_)) ?_
  · refine .learn jumpLabel?_upholds fun label targets => .skip ?_
    cases label with
    | some name => exact .pure ⟨some name, rfl, targets, by simp⟩ .nil
    | none => exact unlabeled
  · refine .learn (checkJump_upholds _ _) fun _ lawful => .pure ?_ .nil
    exact ⟨none, rfl, by simp, fun binding _ => lawful binding⟩

theorem continueStatement_states : d.States s continueStatement continueStatement := by
  have equation : Grammar.continueStatement = (do
      expectKeyword .continue_
      let c ← startCharacter
      let label ← jumpTail (·.inIteration) .illegalContinue (c = 0x3B)
      pure (Node.continueStatement label)) := by
    simp only [Grammar.continueStatement, startCharacter, bind_assoc]
  rw [equation]
  refine .skip <| .past d.places.startCharacter fun _ => ?_
  refine .bind (jumpTail_upholds _ _ _) ?_
  rintro _ ⟨label, rfl, targets, lawful⟩
  exact .built (d.continued targets lawful) (by simp [parts])

theorem breakStatement_states : d.States s breakStatement breakStatement := by
  refine d.places.breaks fun immediate => .bind (jumpTail_upholds _ _ _) ?_
  rintro _ ⟨label, rfl, targets, lawful⟩
  exact .built (d.broken targets lawful) (by simp [parts])

theorem emptyStatement_reads : d.Reads s emptyStatement emptyStatement :=
  .skip <| .wrap rfl rfl (by simp)

theorem expressionStatement_takes {result : Node} (closed : d.expression result) :
    d.Takes s [result] (do consumeSemicolon; pure (.expressionStatement result))
      (do consumeSemicolon; pure (.expressionStatement result)) (Same (d.statement s.context)) :=
  .skip <| .lifted (.wrap rfl rfl (by simpa using closed))

theorem debuggerStatement_reads : d.Reads s debuggerStatement debuggerStatement := by
  refine .skip (.skip ?_)
  exact .wrap rfl rfl (by simp)

instance freshStatement_idle : d.Idle freshStatement :=
  ⟨.modify (fun p => p.unmoved_cover _ _ _)
    (fun concurs => { concurs with bindingElement := rfl, assignmentTarget := rfl }) fun _ _ => id⟩

theorem imported_reads : d.Reads s imported imported := by
  refine .skip <| .bind bindingIdentifier_reads fun module closed => ?_
  exact .skip <| .wrap rfl rfl (by simpa using closed)

/-! ### Declarations -/

section

variable (trusts : d.Trusts reader reader')
include trusts

theorem initializer?_readsSome : d.ReadsSome s (initializer? reader) (initializer? reader') :=
  .fork (.optional (initializer_reads trusts)) .missing

theorem variableDeclarator_reads : d.Reads s (variableDeclarator reader) (variableDeclarator reader') := by
  refine .learn pattern_upholds fun name named => .skip ?_
  exact .bind (initializer?_readsSome trusts) fun _ closed => declarator_takes named closed

theorem variableDeclarators_readsAll :
    d.ReadsAll s (variableDeclarators reader) (variableDeclarators reader') :=
  declarators_readsAll (variableDeclarator_reads trusts)

theorem variableStatement_reads : d.Reads s (variableStatement reader) (variableStatement reader') := by
  refine .skip <| .bind (variableDeclarators_readsAll trusts) ?_
  exact fun list closed => .skip <| .wrap rfl (map_snd_bare _) closed

theorem lexicalBindings_readsAll (constant : Bool) :
    d.ReadsAll s (lexicalBindings reader constant) (lexicalBindings reader' constant) := by
  refine declarators_readsAll (.learn pattern_upholds fun name named => ?_)
  have next (init : Option Node) := @declarator_takes d s name named init
  refine .skip <| .ite ?_ ?_
  · refine .fork (.bind .missing next) ?_
    exact .skip <| .bind (.optional trusts.assignment.isolated) next
  · exact .bind (initializer?_readsSome trusts) next

theorem lexicalDeclaration_reads :
    d.Reads s (lexicalDeclaration reader) (lexicalDeclaration reader') := by
  refine .taking fun t u _ same => ?_
  rw [same]
  split
  · refine .bind (lexicalBindings_readsAll trusts _) fun list closed => ?_
    exact .skip <| .wrap rfl (map_snd_bare _) closed
  · exact .ite (.throw (by simp)) (.throw (by simp))

/-! ### Loops -/

theorem headExpression_reads : d.Reads s (headExpression reader) (headExpression reader') := by
  refine .skip <| .bind (expression_reads trusts) fun test closed => ?_
  exact .skip <| .pure closed .refl

theorem doWhileStatement_states : d.States s (doWhileStatement reader) (doWhileStatement reader') := by
  refine .skip <| .bind (loopBody_upholds trusts.statement) ?_
  refine fun body stated => .skip ?_
  refine .bind (headExpression_reads trusts) fun test closed => .after fun _ => ?_
  refine .joined (fun next => .ite (.skip <| next) next) (.built ?_ (by simp [parts]))
  exact d.loop rfl (by simpa using closed) stated

theorem whileStatement_states : d.States s (whileStatement reader) (whileStatement reader') := by
  refine .skip <| .bind (headExpression_reads trusts) ?_
  refine fun test closed => .bind (loopBody_upholds trusts.statement) fun body stated => ?_
  exact .built (d.loop rfl (by simpa using closed) stated) (by simp [parts])

theorem enumeration_takes {left : Node} (closed : d.expression left) :
    d.Takes s [left] (enumeration reader left) (enumeration reader' left) (Same d.Heads) :=
  .bind (expression_reads trusts) fun right right_closed =>
    .pure (by simpa [Heads, trees] using ⟨closed, right_closed⟩) .refl

theorem counting_takes (init : Option Node) (init_closed : ∀ node ∈ init, d.expression node) :
    d.Takes s init.toList (counting reader init) (counting reader' init) (Same d.Heads) := by
  refine .after fun _ => .joined (fun next => .ite (.bind .missing next)
    (.bind (.optional (expression_reads trusts)) next)) ?_
  refine fun test test_closed => .skip (.after fun _ => ?_)
  refine .joined (fun next => .ite (.bind .missing next) (.bind (.optional (expression_reads trusts)) next)) ?_
  refine fun update update_closed => .pure ?_ .refl
  simp only [Heads, trees, List.forall_mem_append, Option.mem_toList]
  exact ⟨⟨init_closed, test_closed⟩, update_closed⟩

theorem initSequence_takes {first : Node} (closed : d.expression first) :
    d.Takes s [first] (initSequence reader first) (initSequence reader' first) (Same d.expression) := by
  have start : ∀ node ∈ [first], d.expression node := by simpa using closed
  refine .fork ?_ (.pure closed .refl)
  refine .pass (.collected (fun list : List Node => ∀ node ∈ list, d.expression node) ?_ start)
    fun list all => .wrap rfl (map_snd_bare _) all
  refine fun list all => .fork ?_ (.pure all .refl)
  refine .skip <| .bind trusts.assignment.isolated fun next last => ?_
  exact .pure (forall_mem_concat all last) .refl

section

-- The heads begin inside of the statement; the context is still the one from its start.
variable {outer : Context} (bound : d.binding → outer = s.context)
include bound

theorem declaredHead_upholds {declarators declarators' : ParseM (List Node)} (kind : DeclarationKind)
    (isFit : List Node → Bool) {stop : ParseM Unit} [Comparison.Idle d.toComparison stop]
    (reads : ∀ s, d.ReadsAll s declarators declarators') :
    d.Upholds s (declaredHead reader outer kind declarators isFit stop)
      (declaredHead reader' outer kind declarators' isFit stop) d.Heads := by
  refine .skip <| .bind (withoutIn_upholds bound reads) fun list all => ?_
  obtain ⟨closed, kept⟩ := declaration_closed kind all
  refine .of_covers kept (.after fun _ => .ite ?_ ?_)
  · exact .skip <| enumeration_takes trusts closed
  · exact .skip <| counting_takes trusts (some _) (by simpa using closed)

theorem expressionHead_upholds :
    d.Upholds s (expressionHead reader outer) (expressionHead reader' outer) d.Heads := by
  refine .bind (withoutIn_upholds bound fun _ => (assignmentExpression_reads trusts).inherited) ?_
  refine fun init closed => .fork (.get fun p q seen => ?_) ?_
  · rw [seen.assignmentTarget]
    refine .ite (.skip <| .pass (reinterpreted_takes closed) ?_) .complain
    exact fun left closed => enumeration_takes trusts closed
  · refine .pass (initSequence_takes trusts closed) fun init closed => ?_
    exact .skip <| counting_takes trusts (some _) (by simpa using closed)

theorem forHead_upholds : d.Upholds s (forHead reader outer) (forHead reader' outer) d.Heads := by
  refine .looking fun t u _ same => ?_
  rw [same]
  dsimp only
  refine .ite (.skip <| counting_takes trusts none (by simp)) ?_
  refine .ite (declaredHead_upholds trusts bound _ _ fun _ => variableDeclarators_readsAll trusts) ?_
  split
  · exact declaredHead_upholds trusts bound _ _ fun _ => lexicalBindings_readsAll trusts _
  · exact expressionHead_upholds trusts bound

end

theorem forStatement_states : d.States s (forStatement reader) (forStatement reader') := by
  refine .learn context_upholds fun outer bound => .skip ?_
  refine .skip <| .bind (forHead_upholds trusts bound) fun head heads => ?_
  refine .skip <| .bind (loopBody_upholds trusts.statement.isolated) ?_
  intro body stated
  cases head with
  | counting init test update => exact .built (d.loop rfl heads stated) (by simp [trees, parts])
  | enumerating left right => exact .built (d.loop rfl heads stated) (by simp [trees, parts])

/-! ### Jumps -/

theorem returnStatement_states : d.States s (returnStatement reader) (returnStatement reader') := by
  refine d.places.returns fun inBody => ?_
  have ended (argument : Option Node) (closed : ∀ node ∈ argument, d.expression node) :
      d.Takes s argument.toList (pure (.returnStatement argument)) (pure (.returnStatement argument))
        (Same (d.statement s.context)) :=
    .built (d.returned inBody closed) (by simp [parts])
  constructor
  · refine .bind (expression_reads trusts) fun argument closed => ?_
    exact .skip <| ended (some argument) (by simpa using closed)
  · refine .past d.places.afterLineBreak fun _ => .ite (ended none (by simp)) (.looking fun t u _ same => ?_)
    rw [same]
    refine .ite (.bind .missing ?next) (.bind (.optional (expression_reads trusts)) ?next)
    exact fun argument closed => .skip <| ended argument closed

theorem throwStatement_reads : d.Reads s (throwStatement reader) (throwStatement reader') := by
  refine .skip <| .past d.places.afterLineBreak fun _ => ?_
  refine .ite .complain (.bind (expression_reads trusts) fun argument closed => ?_)
  exact .skip <| .wrap rfl rfl (by simpa using closed)

/-! ### Other statements -/

theorem block_states : d.States s (block reader) (block reader') := by
  refine .skip <| .pass (statementsFrom_takes trusts (by simp)) ?_
  exact fun body stated => .skip <| .compound rfl (map_snd_bare _) stated

theorem ifStatement_states : d.States s (ifStatement reader) (ifStatement reader') := by
  refine .skip <| .bind (headExpression_reads trusts) ?_
  refine fun test closed => .bind trusts.statement fun yes yes_stated => ?_
  have test_stated : d.statement s.context test := d.lift closed
  refine .fork (.skip ?_) ?_
  · refine .bind trusts.statement fun no no_stated => .compound rfl rfl ?_
    simp [test_stated, yes_stated, no_stated]
  · exact .compound rfl rfl (by simp [test_stated, yes_stated])

theorem withStatement_states : d.States s (withStatement reader) (withStatement reader') := by
  refine .fork .complain (.skip ?_)
  refine .bind (headExpression_reads trusts) fun object closed => .bind trusts.statement fun body stated => ?_
  exact .compound rfl rfl (by simpa using ⟨d.lift closed, stated⟩)

theorem switchClause_upholds : d.Upholds s (switchClause reader) (switchClause reader') fun clause =>
      d.statement s.context (.switchCase clause.1 clause.2) := by
  have tested : d.ReadsSome s (clauseTest reader) (clauseTest reader') := by
    refine .fork (.skip <| .missing) ?_
    exact .skip <| .optional (expression_reads trusts)
  have empty : ∀ node ∈ ([] : List Node), d.statement s.context node := by simp
  refine .bind tested fun test closed => .skip <| .bind (.collected
    (fun list : List Node => ∀ node ∈ list, d.statement s.context node) ?_ empty) ?_
  · refine fun list stated => .past d.places.inside fun _ => .ite ?_ (.pure stated .refl)
    refine .looking fun t u _ same => ?_
    rw [same]
    refine .ite (.pure stated .refl) (.bind trusts.listItem fun _ last => ?_)
    exact .pure (forall_mem_concat stated last) .refl
  · refine fun list stated => .pure (d.compound rfl ?_) .refl
    simp only [usedParts, parts, map_snd_bare, List.forall_mem_append, Option.mem_toList]
    exact ⟨fun node member => d.lift (closed node member), stated⟩

theorem switchCases_upholds : d.Upholds s (switchCases reader) (switchCases reader') fun nodes =>
      ∀ node ∈ nodes, d.statement s.context node := by
  let holds (state : List Node × Bool) : Prop := ∀ node ∈ state.1, d.statement s.context node
  have empty : holds ([], false) := nofun
  refine .repeated holds ?_ empty
  rintro ⟨cases, defaultFound⟩ stated
  refine .past d.places.inside fun _ => .ite ?_ (.pure stated (.of_mem (by simp [trees])))
  refine .fork (.pure stated (.of_mem (by simp [trees]))) ?_
  refine .bind (switchClause_upholds trusts) ?_
  rintro ⟨test, consequent⟩ last
  refine .ite .complain (.pure (forall_mem_concat stated last) ?_)
  have made : Covers (test.toList ++ consequent) [.switchCase test consequent] :=
    .of_parts (by simp [parts])
  simpa [trees] using made.append cases

theorem switchStatement_states : d.States s (switchStatement reader) (switchStatement reader') := by
  have bodied := @restoring_upholds (List Node) _ d s _ _ _ (fun c => { c with inSwitch := true })
    (fun outer c => { c with inSwitch := outer.inSwitch }) (fun _ => rfl) (switchCases_upholds trusts)
  refine .skip <| .bind (headExpression_reads trusts) ?_
  refine fun discriminant closed => .skip (.after fun _ => ?_)
  refine .ite (.skip <| .built (d.switch closed (by simp)) (by simp [parts])) ?_
  refine .bind bodied fun cases stated => .skip ?_
  exact .built (d.switch closed stated) (by simp [parts])

theorem catchClause_states : d.States s (catchClause reader) (catchClause reader') := by
  refine .skip (.skip ?_)
  refine .fork (.looking fun _ _ known _ => .unexpected known) ?_
  refine .learn pattern_upholds fun name named => .skip ?_
  refine .skip <| .bind (block_states trusts) fun body stated => ?_
  refine .built (d.compound rfl ?_) (by simp [parts])
  simpa [usedParts, parts] using ⟨d.lift (d.identifier.mpr named), stated⟩

theorem tryStatement_states : d.States s (tryStatement reader) (tryStatement reader') := by
  refine .skip <| .bind (block_states trusts) fun body stated => ?_
  refine .after fun _ => .joined (fun next => .ite
    (.bind (.optional (catchClause_states trusts)) next) (.bind .missing next)) fun handler handled => ?_
  refine .after fun _ => .joined (fun next => .ite (.skip <|
    .bind (.optional (block_states trusts)) next) (.bind .missing next)) fun finalizer finalized => ?_
  refine .ite .complain (.compound rfl (by simp [parts]) ?_)
  simp only [List.nil_append, List.forall_mem_append, trees_node, trees_option, List.forall_mem_singleton,
    Option.mem_toList]
  exact ⟨⟨stated, handled⟩, finalized⟩

/-- A label is taken away again, and it was not there before. -/
theorem labeledStatement_states {name : Text} (named : d.name name) :
    d.States s (labeledStatement reader name) (labeledStatement reader' name) := by
  refine .skip <| .learn context_upholds fun c bound => .dite (fun _ => .complain) ?_
  intro known
  have absent (binding : d.binding) : name ∉ s.context.labels := by
    rwa [← bound binding, ← List.contains_iff_mem]
  refine d.scopes.undone (fun c => { c with labels := c.labels ++ [name] })
    (fun c => { c with labels := c.labels.erase name }) (Node.labeledStatement (.identifier name))
    (fun binding => ?_) (fun _ => .of_parts (by simp [parts])) ?_
  · simp [List.erase_append_right _ (absent binding)]
  · exact trusts.statement.imp fun body stated => d.labeled named absent stated

theorem expressionOrLabel_states : d.States s (expressionOrLabel reader) (expressionOrLabel reader') := by
  refine .bind (expression_reads trusts) fun result closed => ?_
  have ended := @expressionStatement_takes d s result closed
  split
  · refine .fork ?_ ended
    exact .of_covers (.key rfl) (labeledStatement_states trusts (d.identifier.mp closed))
  · exact ended

theorem keywordStatement_states (word : Keyword) :
    d.States s (keywordStatement reader word) (keywordStatement reader' word) := by
  unfold keywordStatement
  split
  · exact breakStatement_states
  · exact continueStatement_states
  · exact .lifted debuggerStatement_reads
  · exact doWhileStatement_states trusts
  · exact forStatement_states trusts
  · exact .lifted (functionDeclaration_reads trusts false)
  · exact ifStatement_states trusts
  · exact returnStatement_states trusts
  · exact switchStatement_states trusts
  · exact .lifted (throwStatement_reads trusts)
  · exact tryStatement_states trusts
  · exact .lifted (variableStatement_reads trusts)
  · exact whileStatement_states trusts
  · exact withStatement_states trusts
  · exact expressionOrLabel_states trusts

theorem statement_states : d.States s (statement reader) (statement reader') := by
  refine .looking fun t u known same => ?_
  rw [same]
  split
  · exact .unexpected known
  · exact block_states trusts
  · exact .skip <| emptyStatement_reads.lifted
  · refine .skip <| .bind (expression_reads trusts) fun _ closed => ?_
    exact expressionStatement_takes closed
  · exact .skip <| keywordStatement_states trusts _
  · exact .skip <| expressionOrLabel_states trusts

theorem listItem_states : d.States s (listItem reader) (listItem reader') := by
  intro base apart p q holds
  rw [List.append_nil] at holds
  apply lookahead_at holds
  intro t u apart' q' looked known held
  rw [d.lexeme known]
  by_cases isImport : t.lexeme = .keyword .pyimport
  · simp only [isImport]
    exact d.places.imports held looked isImport imported_reads.lifted (statement_states trusts)
  refine Takes.at_base (?_ : d.States s _ _) held
  split
  · exact .unsupported
  · exact .unsupported
  · exact (lexicalDeclaration_reads trusts).lifted
  · exact (lexicalDeclaration_reads trusts).lifted
  · exact (functionDeclaration_reads trusts false).lifted
  · exact .unsupported
  next keyword => exact absurd keyword isImport
  · exact statement_states trusts

end

/-! ### Programs -/

theorem rule_trusts (trusts : d.Trusts reader reader') : d.Trusts (rule reader) (rule reader') := by
  intro goal s
  cases goal with
  | assignment => exact assignmentExpression_reads trusts
  | unary => exact unaryExpression_reads trusts
  | leftHandSide => exact leftHandSide_reads trusts
  | statement => exact statement_states trusts
  | listItem => exact listItem_states trusts

theorem readerOf_trusts (depth depth' : Nat) : d.Trusts (readerOf depth) (readerOf depth') := by
  induction depth generalizing depth' with
  | zero => exact fun _ _ => .throw (by simp)
  | succ depth ih =>
    cases depth' with
    | zero =>
      intro goal s base apart p q holds
      exact d.exhausted (rule_trusts (ih 0) goal s base apart p q holds)
    | succ depth' => exact rule_trusts (ih depth')

theorem scriptBody_upholds (loose : s.loose = true) (trusts : d.Trusts reader reader') :
    d.Upholds s (scriptBody reader) (scriptBody reader') fun nodes =>
      ∀ node ∈ nodes, d.statement s.context node := by
  refine .bind (directives_upholds trusts loose) fun body stated => ?_
  refine .collected (fun list : List Node => ∀ node ∈ list, d.statement s.context node)
    (fun list stated => ?_) fun node member => stated node member _
  refine .past d.places.inside fun _ => .ite ?_ (.pure stated .refl)
  exact .bind trusts.listItem fun _ last => .pure (forall_mem_concat stated last) .refl

end Discipline

end EcmaScript
