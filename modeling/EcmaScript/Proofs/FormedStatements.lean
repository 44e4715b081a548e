import EcmaScript.Proofs.FormedExpressions
import EcmaScript.Proofs.Strictness

/-!
Statements and programs are formed. A statement stands on its own: whatever the registers of the cover
grammar said before it, no default shows in it, with the one exception of the start of a `for` head,
which is read with open registers and never asked about them again. Code behind the directive
`"use strict"` is read in a strict parser throughout, so the tree of such a program is formed as strict
code is.
-/

namespace EcmaScript

variable {r : Regime} {σ : Stance}

namespace Grammar

open Parse

variable {reader : Reader}

/-! ### Parts without nested rules -/

theorem refuseRestrictedName_formed (name : Text) (message : Message) :
    Steady r (refuseRestrictedName name message) (fun _ => r.strict → name.isRestricted = false) := by
  refine fun σ => .isStrict fun strict isStrict => .ite (fun _ => .complain _ _) fun allowed => ?_
  refine .pure ⟨fun strictly => ?_, rfl⟩
  simpa [isStrict strictly] using allowed

theorem some_formed {rule : ParseM Node} {k : Category} (reads : Steady r rule (Proper r k)) :
    Steady r (some <$> rule) (fun found => ∀ n ∈ found, Proper r k n) :=
  .map fun σ => (reads σ).imp fun n _ met => ⟨by simpa using met.1, met.2⟩

theorem optional_yields {β : Type} {b : Prop} [Decidable b] {rule : ParseM Node} {k : Category}
    {f : Option Node → ParseM β} {ends : β → Stance → Prop} (reads : Steady r rule (Proper r k))
    (next : ∀ found, (∀ n ∈ found, Proper r k n) → Yields r σ (f found) ends) :
    Yields r σ (if b then pure none >>= f else some <$> rule >>= f) ends :=
  .ite (fun _ => next none (by simp)) fun _ => .step (some_formed reads) next

theorem declarators_formed {declarator : ParseM Node} (reads : Steady r declarator (Proper r .declarator)) :
    Steady r (declarators declarator) (fun list => ∀ n ∈ list, Proper r .declarator n) := by
  refine .collected _ (fun list before σ => .step reads fun next formed => ?_) (by simp)
  have extended := forall_mem_concat before formed
  refine .fork (.skip ?_) <| .pure ⟨extended, rfl⟩
  refine .fork ?_ ?_
  · exact .pure ⟨extended, rfl⟩
  · exact .pure ⟨extended, rfl⟩

variable {list : List Node}

theorem loopBody_yields {body : ParseM Node} {ends : Node → Stance → Prop} (reads : Yields r σ body ends) :
    Yields r σ (loopBody body) ends := by
  refine .after fun _ => .skip ?_
  exact reads.bind fun result τ ended => .skip <| .pure ended

theorem withoutIn_yields {α : Type} {outer : Context} {part : ParseM α} {ends : α → Stance → Prop}
    (reads : Yields r σ part ends) : Yields r σ (withoutIn outer part) ends := by
  refine .skip ?_
  exact reads.bind fun result τ ended => .skip <| .pure ended

/-- A head makes a formed statement with every body. -/
def FormedHead (r : Regime) : ForHead → Prop
  | .counting init test update =>
    ∀ body, Proper r .statement body → Proper r .statement (.forStatement init test update body)
  | .enumerating left right =>
    ∀ body, Proper r .statement body → Proper r .statement (.forInStatement left right body)

theorem declaration_enumerates (kind : DeclarationKind)
    (declared : ∀ n ∈ list, Proper r .declarator n) (single : list.length = 1) {right body : Node}
    (right_formed : Proper r .expression right) (formed : Proper r .statement body) :
    Proper r .statement (.forInStatement (.variableDeclaration kind list) right body) := by
  -- With more than one declarator the head does not enumerate.
  obtain ⟨declarator, rfl⟩ := List.length_eq_one_iff.mp single
  have left : Proper r .declarator declarator := by simpa using declared
  exact .forInDeclaration kind left right_formed formed

theorem jumpTail_formed (allowed : Context → Bool) (message : Message) (immediate : Bool) :
    Steady r (jumpTail allowed message immediate)
      (fun label => ∃ name : Option Text, label = name.map .identifier) := by
  have none_labeled : Steady r (do checkJump allowed message; pure none)
      (fun label : Option Node => ∃ name : Option Text, label = name.map .identifier) :=
    fun σ => .skip <| .pure ⟨⟨none, rfl⟩, rfl⟩
  refine fun σ => .ite (fun _ => .skip <| none_labeled σ) fun _ => ?_
  refine .fork (none_labeled σ) ?_
  refine .after fun label => .skip ?_
  cases label with
  | some name => exact .pure ⟨⟨some name, rfl⟩, rfl⟩
  | none => exact none_labeled σ

theorem continueStatement_formed : Steady r continueStatement (Proper r .statement) := by
  refine fun σ => .skip <| .after fun mark => ?_
  refine .after fun _ => .step (jumpTail_formed _ _ _) fun label named => ?_
  obtain ⟨name, rfl⟩ := named
  exact .pure ⟨.continueStatement name, rfl⟩

theorem breakStatement_formed : Steady r breakStatement (Proper r .statement) := by
  refine fun σ => .skip <| .after fun mark => ?_
  refine .after fun _ => .step (jumpTail_formed _ _ _) fun label named => ?_
  obtain ⟨name, rfl⟩ := named
  exact .pure ⟨.breakStatement name, rfl⟩

theorem FormedBlock.proper {n : Node} (block : FormedBlock r n) : Proper r .statement n := by
  obtain ⟨body, rfl, formed⟩ := block
  exact .blockStatement formed

theorem emptyStatement_formed : Steady r emptyStatement (Proper r .statement) :=
  fun _ => .skip <| .pure ⟨.emptyStatement, rfl⟩

/-- The clauses so far, and whether there is a default among them. -/
structure Clauses (r : Regime) (state : List Node × Bool) : Prop where
  formed : ∀ n ∈ state.1, Proper r .clause n
  defaults : state.1.countP Node.isDefaultClause = state.2.toNat

theorem Clauses.add {clauses : List Node} {defaultFound : Bool} (before : Clauses r (clauses, defaultFound))
    {test : Option Node} {body : List Node} (formed : Proper r .clause (.switchCase test body))
    (new : ¬ (test.isNone && defaultFound) = true) :
    Clauses r (clauses ++ [.switchCase test body], defaultFound || test.isNone) := by
  refine ⟨forall_mem_concat before.formed formed, ?_⟩
  have defaults := before.defaults
  -- A second clause without a test is refused, so the count grows from zero to one at most once.
  cases test <;> cases defaultFound <;>
    simp_all [List.countP_append, List.countP_singleton, Node.isDefaultClause]

theorem debuggerStatement_formed : Steady r debuggerStatement (Proper r .statement) :=
  fun _ => .skip <|
    .skip <| .pure ⟨.debuggerStatement, rfl⟩

/-- What a statement leaves in the registers is of no interest, so it may set them as it likes. -/
theorem freshStatement_yields {β : Type} {f : Unit → ParseM β} {answers : β → Prop}
    (next : Loose r (f ()) answers) : Yields r σ (freshStatement >>= f) (fun a _ => answers a) :=
  .modify (τ := ⟨True, σ.settled⟩)
    (fun _ stands => ⟨stands.strict, stands.pyimport, fun _ => trivial, stands.settled, stands.candid⟩)
    (next _)

theorem pyimportStatement_formed : Loose r pyimportStatement (Proper r .statement) := by
  refine fun σ => .get fun p stands => .ite (fun allowed => ?_) fun _ => .throw _
  refine .skip ?_
  simp only [bindingIdentifier, bind_assoc, pure_bind]
  exact .after fun name => .skip <| .pure (.pyimportStatement name (stands.pyimport allowed))

/-! ### Declarations -/

section

variable (trusted : Trusted r reader)
include trusted

theorem initializer?_formed :
    Steady r (initializer? reader) (fun found => ∀ n ∈ found, Proper r .expression n) := by
  refine fun σ => .fork ?_ <| .pure ⟨by simp, rfl⟩
  exact some_formed (initializer_formed trusted) σ

theorem variableDeclarator_formed : Steady r (variableDeclarator reader) (Proper r .declarator) := by
  refine fun σ => .after fun name => ?_
  refine .step (refuseRestrictedName_formed name _) fun _ lawful => ?_
  refine .step (initializer?_formed trusted) fun init formed => ?_
  exact .pure ⟨.variableDeclarator lawful formed, rfl⟩

theorem lexicalBinding_formed (constant : Bool) :
    Steady r (lexicalBinding reader constant) (Proper r .declarator) := by
  refine fun σ => .after fun name => ?_
  refine .step (refuseRestrictedName_formed name _) fun _ lawful => ?_
  have finish (init : Option Node) (formed : ∀ n ∈ init, Proper r .expression n) :
      Yields r σ (pure (.variableDeclarator (.identifier name) init))
        (fun n τ => Proper r .declarator n ∧ τ = σ) :=
    .pure ⟨.variableDeclarator lawful formed, rfl⟩
  refine .ite (fun _ => .after fun _ => ?_) fun _ => ?_
  · refine .ite (fun _ => finish none (by simp)) fun _ => .skip ?_
    exact .step (some_formed trusted.assignment.isolated) finish
  · exact .step (initializer?_formed trusted) finish

theorem variableStatement_formed : Steady r (variableStatement reader) (Proper r .statement) := by
  refine fun σ => .skip ?_
  refine .step (declarators_formed (variableDeclarator_formed trusted)) fun list formed => ?_
  exact .skip <| .pure ⟨.variableDeclaration .var formed, rfl⟩

theorem lexicalDeclaration_formed : Steady r (lexicalDeclaration reader) (Proper r .statement) := by
  refine fun σ => .after fun token => ?_
  split
  next kind _ =>
    refine .step (declarators_formed (lexicalBinding_formed trusted _)) fun list formed => ?_
    exact .skip <| .pure ⟨.variableDeclaration kind formed, rfl⟩
  next => exact .ite (fun _ => .throw _) fun _ => .throw _

/-! ### Loops -/

theorem headExpression_formed : Steady r (headExpression reader) (Proper r .expression) := by
  refine fun σ => .skip <| .step (expression_formed trusted) fun test formed => ?_
  exact .skip <| .pure ⟨formed, rfl⟩

theorem doWhileStatement_formed : Loose r (doWhileStatement reader) (Proper r .statement) := by
  refine fun σ => .skip ?_
  refine (loopBody_yields (trusted.statement σ)).bind fun body τ body_formed => ?_
  refine .skip <| .step (headExpression_formed trusted) fun test formed => ?_
  have whole : Proper r .statement (.doWhileStatement body test) :=
    .doWhileStatement body_formed formed
  refine .fork ?_ <| .pure whole
  exact .skip <| .pure whole

theorem whileStatement_formed : Loose r (whileStatement reader) (Proper r .statement) := by
  refine fun σ => .skip ?_
  refine .step (headExpression_formed trusted) fun test formed => ?_
  refine (loopBody_yields (trusted.statement σ)).bind fun body τ body_formed => ?_
  exact .pure (.whileStatement formed body_formed)

theorem enumeration_formed {left : Node}
    (enumerates : ∀ right body, Proper r .expression right → Proper r .statement body →
      Proper r .statement (.forInStatement left right body)) :
    Steady r (enumeration reader left) (FormedHead r) := by
  refine fun σ => .step (expression_formed trusted) fun right formed => .pure ⟨?_, rfl⟩
  exact fun body body_formed => enumerates right body formed body_formed

theorem counting_formed {init : Option Node}
    (counts : ∀ test update body, (∀ n ∈ test, Proper r .expression n) →
      (∀ n ∈ update, Proper r .expression n) → Proper r .statement body →
        Proper r .statement (.forStatement init test update body)) :
    Steady r (counting reader init) (FormedHead r) := by
  refine fun σ => .after fun _ => ?_
  refine optional_yields (expression_formed trusted) fun test test_formed => ?_
  refine .after fun _ => .after fun _ => ?_
  refine optional_yields (expression_formed trusted) fun update update_formed => .pure ⟨?_, rfl⟩
  exact fun body formed => counts test update body test_formed update_formed formed

theorem declaredHead_formed (outer : Context) (kind : DeclarationKind) {declarator : ParseM Node}
    {isFit : List Node → Bool} {stop : ParseM Unit} [Quiet stop]
    (fits : ∀ list, isFit list = true → list.length = 1)
    (declares : Steady r declarator (Proper r .declarator)) :
    Steady r (declaredHead reader outer kind (declarators declarator) isFit stop) (FormedHead r) := by
  refine fun σ => .skip ?_
  have list := declarators_formed declares
  refine .step (fun σ => withoutIn_yields (list σ)) fun list declared => ?_
  refine .after fun _ => .ite (fun enumerates => .after fun _ => ?_) fun _ => ?_
  · have single := fits list (Bool.and_eq_true_iff.mp enumerates).1
    exact enumeration_formed trusted (fun _ _ => declaration_enumerates kind declared single) σ
  · refine .skip ?_
    exact counting_formed trusted (fun _ _ _ => .forDeclaration kind declared) σ

theorem initSequence_formed {first : Node} (formed : Formed r False .expression first) :
    Steady r (initSequence reader first) (Formed r False .expression) := by
  refine fun σ => .fork ?_ <| .pure ⟨formed, rfl⟩
  refine .step (.collected (fun expressions => ∀ n ∈ expressions, Formed r False .expression n) ?_
    (by simpa using formed)) fun expressions formed => .pure ⟨.sequenceExpression formed, rfl⟩
  refine fun expressions before σ => .after fun _ => ?_
  refine .ite (fun _ => .skip ?_) fun _ => .pure ⟨before, rfl⟩
  refine .step trusted.assignment.isolated fun next formed => .pure ⟨?_, rfl⟩
  exact forall_mem_concat before formed.under

theorem expressionHead_formed (outer : Context) :
    Loose r (expressionHead reader outer) (FormedHead r) := by
  intro σ
  -- The first expression is inherited: that it is settled is not asked, neither here nor later.
  refine (withoutIn_yields (assignmentExpression_formed trusted).inherited).bind fun init τ met => ?_
  refine .fork ?_ ?_
  · refine .get fun p stands => .ite (fun _ => .skip ?_) fun _ => .complain _ _
    refine .step (reinterpreted_formed met.1) fun left target => ?_
    exact (enumeration_formed trusted fun _ _ => .forInStatement target.1).loose τ
  · refine .step (initSequence_formed trusted (met.1.formed.mono False.elim)) fun init started => ?_
    refine .skip <| (counting_formed trusted fun _ _ _ => ?_).loose τ
    exact .forStatement (by simpa using started)

theorem forHead_formed (outer : Context) : Loose r (forHead reader outer) (FormedHead r) := by
  refine fun σ => .after fun token => .ite (fun _ => ?_) fun _ => ?_
  · refine .skip ?_
    exact (counting_formed trusted fun _ _ _ => .forStatement (by simp)).loose σ
  · refine .ite (fun _ => (declaredHead_formed trusted outer _ (by simp)
      (variableDeclarator_formed trusted)).loose σ) fun _ => ?_
    split
    · exact (declaredHead_formed trusted outer _ (fun _ fit => by simp_all)
        (lexicalBinding_formed trusted _)).loose σ
    · exact expressionHead_formed trusted outer σ

theorem forStatement_formed : Loose r (forStatement reader) (Proper r .statement) := by
  refine fun σ => .after fun outer => .skip ?_
  refine .skip <| (forHead_formed trusted outer σ).bind fun head τ formed => ?_
  have body := Steady.isolated_of_loose trusted.statement
  refine .skip ?_
  refine .step (fun σ => loopBody_yields (body σ)) fun body body_formed => ?_
  cases head with
  | counting init test update => exact .pure (formed body body_formed)
  | enumerating left right => exact .pure (formed body body_formed)

/-! ### Jumps -/

theorem returnStatement_formed : Steady r (returnStatement reader) (Proper r .statement) := by
  refine fun σ => .skip (.after fun _ => ?_)
  refine .ite (fun _ => .fork ?_ ?_) fun _ => .complain _ _
  · refine .step (expression_formed trusted) fun argument formed => ?_
    exact .skip <| .pure ⟨.returnStatement (by simpa using formed), rfl⟩
  · refine .fork ?_ ?_
    · exact .pure ⟨.returnStatement (by simp), rfl⟩
    · refine .after fun token => ?_
      refine optional_yields (expression_formed trusted) fun argument formed => ?_
      exact .skip <| .pure ⟨.returnStatement formed, rfl⟩

theorem throwStatement_formed : Steady r (throwStatement reader) (Proper r .statement) := by
  refine fun σ => .skip (.after fun _ => ?_)
  refine .ite (fun _ => .complain _ _) fun _ => .step (expression_formed trusted) fun argument formed => ?_
  exact .skip <| .pure ⟨.throwStatement formed, rfl⟩

/-! ### Statements -/

theorem block_formed : Loose r (block reader) (FormedBlock r) := by
  refine fun σ => .skip ?_
  refine (statementsFrom_formed trusted (List.forall_mem_nil _) σ).bind fun body _ formed => ?_
  exact .skip <| .pure ⟨body, rfl, formed⟩

theorem expressionStatement_formed : Steady r (expressionStatement reader) (Proper r .statement) := by
  refine fun σ => .step (expression_formed trusted) fun result formed => ?_
  exact .skip <| .pure ⟨.expressionStatement formed, rfl⟩

theorem ifStatement_formed : Loose r (ifStatement reader) (Proper r .statement) := by
  refine fun σ => .skip ?_
  refine .step (headExpression_formed trusted) fun test test_formed => ?_
  refine (trusted.statement σ).bind fun consequent τ formed => ?_
  refine .fork (.skip ?_) ?_
  · refine (trusted.statement τ).bind fun alternate _ other => ?_
    exact .pure (.ifStatement test_formed formed (by simpa using other))
  · exact .pure (.ifStatement test_formed formed (by simp))

theorem withStatement_formed : Loose r (withStatement reader) (Proper r .statement) := by
  refine fun σ => .isStrict fun strict isStrict => .ite (fun _ => .complain _ _) fun lax => ?_
  refine .skip ?_
  refine .step (headExpression_formed trusted) fun object formed => ?_
  refine (trusted.statement σ).bind fun body _ body_formed => ?_
  exact .pure (.withStatement (lax ∘ isStrict) formed body_formed)

theorem switchClause_formed :
    Loose r (switchClause reader) (fun found => Proper r .clause (.switchCase found.1 found.2)) := by
  have test : Steady r (clauseTest reader) (fun found => ∀ n ∈ found, Proper r .expression n) := by
    refine fun σ => .fork ?_ ?_
    · exact .skip <| .pure ⟨by simp, rfl⟩
    · exact .skip <| some_formed (expression_formed trusted) σ
  refine fun σ => .step test fun test test_formed => .skip ?_
  refine .bind (.collected (fun statements _ => ∀ n ∈ statements, Proper r .statement n) ?_ (by simp))
    fun consequent _ formed => .pure (.switchCase test_formed formed)
  intro statements τ before
  refine .fork ?_ <| .pure before
  refine .after fun _ => .ite (fun _ => .pure before) fun _ => ?_
  exact (trusted.listItem τ).bind fun statement _ formed => .pure (forall_mem_concat before formed)

theorem switchCases_formed : Loose r (switchCases reader) (fun clauses =>
      (∀ n ∈ clauses, Proper r .clause n) ∧ clauses.countP Node.isDefaultClause ≤ 1) := by
  refine .repeated (Clauses r) ?_ ⟨nofun, rfl⟩
  rintro ⟨clauses, defaultFound⟩ before σ
  have ended : (∀ n ∈ clauses, Proper r .clause n) ∧ clauses.countP Node.isDefaultClause ≤ 1 :=
    ⟨before.formed, before.defaults.trans_le (Bool.toNat_le _)⟩
  refine .fork ?_ <| .pure ended
  refine .fork (.pure ended) ?_
  refine (switchClause_formed trusted σ).bind fun clause _ formed => ?_
  exact .ite (fun _ => .complain _ _) fun new => .pure (before.add formed new)

theorem switchStatement_formed : Loose r (switchStatement reader) (Proper r .statement) := by
  refine fun σ => .skip ?_
  refine .step (headExpression_formed trusted) fun discriminant formed => ?_
  refine .skip <| .fork ?_ ?_
  · refine .skip ?_
    exact .pure (.switchStatement formed (by simp) (Nat.zero_le 1))
  · have clauses : Yields r σ (switchBody (switchCases reader)) (fun clauses _ =>
        (∀ n ∈ clauses, Proper r .clause n) ∧ clauses.countP Node.isDefaultClause ≤ 1) := by
      refine .after fun _ => .skip ?_
      refine (switchCases_formed trusted σ).bind fun clauses _ met => ?_
      exact .skip <| .pure met
    refine clauses.bind fun clauses _ met => ?_
    exact .skip <| .pure (.switchStatement formed met.1 met.2)

theorem catchClause_formed : Loose r (catchClause reader) (Proper r .handler) := by
  refine fun σ => .skip (.skip ?_)
  refine .fork ?_ ?_
  · exact .after fun _ => .unexpected _
  refine .after fun name => .step (refuseRestrictedName_formed name _) fun _ lawful => ?_
  refine .skip ?_
  refine (block_formed trusted σ).bind fun body _ block => ?_
  obtain ⟨statements, rfl, formed⟩ := block
  exact .pure (.catchClause lawful formed)

theorem tryStatement_formed : Loose r (tryStatement reader) (Proper r .statement) := by
  refine fun σ => .skip ?_
  refine (block_formed trusted σ).bind fun body τ block => ?_
  obtain ⟨statements, rfl, formed⟩ := block
  refine .after fun _ => ?_
  -- The rest of the rule from its end backwards: the check, then the part that may be left out.
  have finish (handler : Option Node) (υ : Stance) (handled : ∀ n ∈ handler, Proper r .handler n)
      (final : Option (List Node)) (final_formed : ∀ body ∈ final, ∀ n ∈ body, Proper r .statement n) :
      Yields r υ (tryEnd (.blockStatement statements) handler (final.map .blockStatement))
        (fun n _ => Proper r .statement n) := by
    refine .ite (fun _ => .complain _ _) fun some_part => .pure ?_
    refine .tryStatement formed handled final_formed ?_
    cases handler <;> cases final <;> simp_all
  have finally_ (handler : Option Node) (υ : Stance) (handled : ∀ n ∈ handler, Proper r .handler n) :
      Yields r υ (tryRest reader (.blockStatement statements) handler)
        (fun n _ => Proper r .statement n) := by
    refine .fork (.skip ?_) ?_
    · rw [bind_map_left]
      refine (block_formed trusted υ).bind fun body φ block => ?_
      obtain ⟨last, rfl, last_formed⟩ := block
      exact finish handler φ handled (some last) (by simpa using last_formed)
    · exact finish handler υ handled none (by simp)
  refine .ite (fun _ => ?_) fun _ => finally_ none τ (by simp)
  rw [bind_map_left]
  refine (catchClause_formed trusted τ).bind fun handler υ handled => ?_
  exact finally_ (some handler) υ (by simpa using handled)

theorem labeledStatement_formed (name : Text) :
    Loose r (labeledStatement reader name) (Proper r .statement) := by
  refine fun σ => .skip (.after fun _ => ?_)
  refine .ite (fun _ => .complain _ _) fun _ => .skip ?_
  refine (trusted.statement σ).bind fun body _ formed => .skip ?_
  exact .pure (.labeledStatement name formed)

theorem expressionOrLabel_formed : Loose r (expressionOrLabel reader) (Proper r .statement) := by
  refine fun σ => .step (expression_formed trusted) fun result formed => ?_
  have plain : Yields r σ (do consumeSemicolon; pure (.expressionStatement result))
      (fun n _ => Proper r .statement n) :=
    .skip <| .pure (.expressionStatement formed)
  split
  · refine .fork ?_ <| plain
    exact labeledStatement_formed trusted _ σ
  · exact plain

theorem keywordStatement_formed (word : Keyword) :
    Loose r (keywordStatement reader word) (Proper r .statement) := by
  unfold keywordStatement
  split
  · exact breakStatement_formed.loose
  · exact continueStatement_formed.loose
  · exact debuggerStatement_formed.loose
  · exact doWhileStatement_formed trusted
  · exact forStatement_formed trusted
  · exact functionDeclaration_formed trusted false
  · exact ifStatement_formed trusted
  · exact (returnStatement_formed trusted).loose
  · exact switchStatement_formed trusted
  · exact (throwStatement_formed trusted).loose
  · exact tryStatement_formed trusted
  · exact (variableStatement_formed trusted).loose
  · exact whileStatement_formed trusted
  · exact withStatement_formed trusted
  · exact expressionOrLabel_formed trusted

theorem statement_formed : Loose r (statement reader) (Proper r .statement) := by
  refine fun σ => .after fun token => ?_
  split
  · exact .unexpected _
  · exact (block_formed trusted σ).imp fun _ _ block => block.proper
  · exact freshStatement_yields emptyStatement_formed.loose
  · exact freshStatement_yields (expressionStatement_formed trusted).loose
  · exact freshStatement_yields (keywordStatement_formed trusted _)
  · exact freshStatement_yields (expressionOrLabel_formed trusted)

theorem listItem_formed : Loose r (listItem reader) (Proper r .statement) := by
  refine fun σ => .after fun token => ?_
  split
  · exact .throw _
  · exact .throw _
  · exact (lexicalDeclaration_formed trusted).loose σ
  · exact (lexicalDeclaration_formed trusted).loose σ
  · exact functionDeclaration_formed trusted false σ
  · exact .throw _
  · refine .get fun p stands => .ite (fun _ => ?_) fun _ => ?_
    · exact pyimportStatement_formed σ
    · exact statement_formed trusted σ
  · exact statement_formed trusted σ

end

/-! ### Readers -/

theorem rule_trusted (trusted : Trusted r reader) : Trusted r (rule reader) where
  assignment := assignmentExpression_formed trusted
  unary := unaryExpression_formed trusted
  leftHandSide := leftHandSide_formed trusted
  statement := statement_formed trusted
  listItem := listItem_formed trusted

theorem readerOf_trusted (depth : Nat) : Trusted r (readerOf depth) := by
  induction depth with
  | zero =>
    -- Such a reader answers nothing.
    constructor <;> exact fun _ => .throw _
  | succ depth ih => exact rule_trusted ih

/-! ### Programs -/

variable {state : List Node × Option (Option Token)}

theorem scriptRound_formed (trusted : Trusted r reader)
    (before : ∀ n ∈ state.1, Proper r .statement n) : Loose r (scriptRound reader refuseOctal state)
      (Sum.elim (fun state => ∀ n ∈ state.1, Proper r .statement n)
        (fun body => ∀ n ∈ body, Proper r .statement n)) := by
  obtain ⟨body, octal⟩ := state
  intro σ
  -- A round reads a directive as long as there may be one, and any statement afterwards.
  cases octal with
  | some octal =>
    rw [scriptRound_some]
    refine .map ((directiveRound_formed trusted refuseOctal_quiet before σ).imp fun answer τ met => ?_)
    cases answer with
    | inl state => exact met
    | inr body => exact met
  | none =>
    rw [scriptRound_none]
    refine .map (.fork ?_ <| .pure before)
    exact (trusted.listItem σ).bind fun statement _ formed => .pure (forall_mem_concat before formed)

theorem scriptFrom_formed {p q : Parser} {depth rounds : Nat}
    {body : List Node} (stands : p.Stands r σ) (before : ∀ n ∈ state.1, Proper r .statement n)
    (run : scriptFrom (readerOf depth) refuseOctal rounds state p = .ok body q) :
    Proper r .program (.program body) := by
  have met : Meets (scriptFrom (readerOf depth) refuseOctal rounds state) p
      (fun body _ => ∀ n ∈ body, Proper r .statement n) anyFault := by
    -- Some stance is kept from round to round; which one does not matter.
    refine Meets.iterate_returns
      (fun state q => (∀ n ∈ state.1, Proper r .statement n) ∧ ∃ τ, q.Stands r τ) ?_ _ _ _ ⟨before, σ, stands⟩
    rintro state q ⟨before, τ, stands⟩
    refine (scriptRound_formed (readerOf_trusted depth) before τ q stands).imp fun answer q met => ?_
    obtain ⟨υ, formed, stands⟩ := met
    cases answer with
    | inl state => exact ⟨formed, υ, stands⟩
    | inr body => exact formed
  have formed := met.of_ok run
  exact .program formed

end Grammar

open Grammar

section

variable {settings : Settings} {code : Text} {root : Node}

theorem parse_formed (parsed : parse settings code = .ok root) :
    Proper ⟨False, settings.pyimport = true⟩ .program root := by
  obtain ⟨p, q, body, peeked, script, rfl⟩ := parse_ok parsed
  obtain ⟨rounds, script⟩ := scriptBody_ok script
  have peeks := (Parse.peek_quiet.undisturbed _).of_ok peeked
  have same : p.settings = settings := congrArg Registers.settings peeks.registers
  have stands : p.Stands ⟨False, settings.pyimport = true⟩ ⟨True, True⟩ :=
    ⟨False.elim, fun allowed => by rwa [same] at allowed, fun _ => trivial, fun _ => trivial,
      peeks.candid nofun⟩
  exact scriptFrom_formed stands (List.forall_mem_nil _) script

theorem parse_strictly_formed (parsed : parse settings (strictly ++ code) = .ok root) :
    Proper ⟨True, settings.pyimport = true⟩ .program root := by
  obtain ⟨p, q, rounds, body, begun, strict, rfl, script⟩ := parse_strictly parsed
  have stands : p.Stands ⟨True, settings.pyimport = true⟩ ⟨True, True⟩ :=
    ⟨fun _ => strict, fun allowed => by rwa [begun.settings] at allowed, fun _ => trivial, fun _ => trivial,
      begun.candid⟩
  -- The directive is read already, and the script goes on behind it.
  refine scriptFrom_formed stands (List.forall_mem_singleton.mpr ?_) script
  exact .expressionStatement (.literal ⟨_, _, rfl, fun _ => ⟨_, rfl⟩⟩ fun _ =>
    show useStrict.written.hasOctalEscape = false by decide)

end

end EcmaScript
