import EcmaScript.Proofs.Progress
import EcmaScript.Proofs.Restoration

/-!
What a program can come to. Every statement takes a token, keeps the level and fails in an acceptable
way only, so the rules can be tied together: a reader whose depth covers the rest of the source is
reliable. A program then ends in a tree, in a complaint, or at a closing brace without an open one;
no other fault is within reach, since the text after the program keeps every look ahead inside the
source. After a tree nothing is left of the source and no brace is open.
-/

namespace EcmaScript

namespace Grammar

open Parse

variable {α β : Type} {src : Source} {k : Nat} {l : Int} {reader : Reader} {p : Parser}

/-! ### Parts without nested rules -/

theorem loopBody_goes {body : ParseM Node} {k' : Nat} {l' : Int} (goes : Goes src k l body k' l') :
    Goes src k l (loopBody body) k' l' := by
  refine .past fun outer => .past fun _ => ?_
  exact .bind goes fun _ => .past fun _ => .stay

theorem withoutIn_goes {part : ParseM α} {k' : Nat} {l' : Int} (goes : Goes src k l part k' l')
    (outer : Context) : Goes src k l (withoutIn outer part) k' l' := by
  refine .past fun _ => ?_
  exact .bind goes fun _ => .past fun _ => .stay

variable {token : Token}

theorem lexicalKind?_light {lexeme : Lexeme} {kind : DeclarationKind}
    (found : lexicalKind? lexeme = some kind) : Light lexeme := by
  unfold lexicalKind? at found
  split at found
  · exact ⟨nofun, rfl⟩
  · exact ⟨nofun, rfl⟩
  · cases found

theorem checkJump_goes (allowed : Context → Bool) {message : Message}
    (fits : (Text.formatExactly? [] message.text).isSome) :
    Goes src k l (checkJump allowed message) k l :=
  .past fun _ => .ite .stay fun _ _ => complain_meets fits

theorem jumpLabel?_goes : Goes src k l jumpLabel? k l := by
  refine lookahead_leads fun token p here _ => ?_
  split
  · refine Leads.step (fun name => ?_) p here
    refine .past fun _ => .ite (.settle (Nat.le_succ k)) fun _ _ => ?_
    exact complain_meets (formats rfl rfl)
  · exact here

theorem jumpTail_at (allowed : Context → Bool) {message : Message} {immediate : Bool}
    (fits : (Text.formatExactly? [] message.text).isSome) (here : p.At src k l)
    (seen : immediate = true → src[p.place]? = some 0x3B) :
    Arrives src (jumpTail allowed message immediate) p k l := by
  have check : Goes src k l (do checkJump allowed message; pure (none : Option Node)) k l :=
    .bind (checkJump_goes allowed fits) fun _ => .stay
  refine .ite (fun isImmediate => ?_) fun _ => ?_
  · exact (drop_semicolon here (seen isImmediate)).bind fun _ q there => check q there
  · refine Leads.past (fun _ => ?_) p here
    refine .ite check (.bind jumpLabel?_goes fun label => .past fun _ => ?_)
    cases label with
    | some name => exact .stay
    | none => exact check

theorem continueStatement_goes : Goes src k l continueStatement (k + 1) l := by
  intro p here
  refine (expectKeyword_at _ here).bind fun _ q met => ?_
  obtain ⟨there, _, behind⟩ := met
  refine (startMark_at there).bind fun mark r seen => ?_
  obtain ⟨rfl, -, place⟩ := seen
  refine (characterAt_at there (place ▸ behind.place)).bind fun ch r seen => ?_
  obtain ⟨rfl, found⟩ := seen
  refine (jumpTail_at _ (formats rfl rfl) there fun isSemicolon => ?_).bind fun _ _ there => there
  rw [← place, found, of_decide_eq_true isSemicolon]

theorem lastMark_at {mark : Mark} (last : p.last = some mark) :
    Meets lastMark p (fun found q => q = p ∧ found = mark) (Acceptable src) := by
  refine .get_bind ?_
  rw [last]
  exact ⟨rfl, rfl⟩

theorem breakStatement_goes : Goes src k l breakStatement (k + 1) l := by
  intro p here
  refine (expectKeyword_at _ here).bind fun _ q met => ?_
  obtain ⟨there, mark, behind⟩ := met
  refine (lastMark_at behind.last).bind fun _ r seen => ?_
  obtain ⟨rfl, rfl⟩ := seen
  refine (characterAt_at there behind.room).bind fun ch r seen => ?_
  obtain ⟨rfl, found⟩ := seen
  refine (jumpTail_at _ (formats rfl rfl) there fun isSemicolon => ?_).bind fun _ _ there => there
  rw [of_decide_eq_true isSemicolon] at found
  rw [behind.semicolon found, found]

theorem nameFollows_at {mark : Mark} (here : p.At src k l) (behind : BehindKeyword src p mark) :
    Meets nameFollows p (fun _ q => q = p) (Acceptable src) := by
  refine (lastMark_at behind.last).bind fun _ q seen => ?_
  obtain ⟨rfl, rfl⟩ := seen
  refine (characterAt_at here behind.room).bind fun _ r seen => ?_
  obtain ⟨rfl, -⟩ := seen
  refine .ite (fun _ => ?_) fun _ => rfl
  exact (characterAt_at here behind.room').bind fun _ _ seen => seen.1

theorem emptyStatement_goes : Goes src k l emptyStatement (k + 1) l :=
  .expect rfl fun _ => .stay

theorem switchBody_goes {cases : ParseM (List Node)} (goes : Goes src k l cases k l) :
    Goes src k l (switchBody cases) k l := by
  refine .past fun outer => .past fun _ => ?_
  exact .bind goes fun _ => .past fun _ => .stay

theorem debuggerStatement_goes : Goes src k l debuggerStatement (k + 1) l :=
  .step fun _ => .past fun _ => .stay

theorem freshStatement_goes : Goes src k l freshStatement k l :=
  .modify fun _ => .rfl

theorem pyimportStatement_at (here : p.At src k l) (coherent : Coherent src p token)
    (light : Light token.lexeme) :
    Arrives src pyimportStatement p (k + 1) l := by
  refine .get_bind (.ite (fun _ => ?_) fun _ => unsupported_meets _)
  refine (drop_light here coherent light).bind fun _ q there => ?_
  refine Leads.step (fun _ => ?_) q there
  exact .past fun _ => .settle (Nat.le_succ _)

section

variable (reliable : Reliable src (k + 1) reader)
include reliable

/-! ### Declarations -/

theorem variableStatement_goes : Goes src k l (variableStatement reader) (k + 1) l := by
  refine .step fun _ => .bind (variableDeclarators_goes reliable.next) ?_
  exact fun _ => .past fun _ => .settle (Nat.le_succ _)

/-! ### Iteration -/

theorem headExpression_goes : Goes src k l (headExpression reader) (k + 1) l := by
  refine .expect rfl fun _ => .bind (expression_goes reliable.next) fun _ => ?_
  exact .expect rfl fun _ => .settle (by omega)

theorem doWhileStatement_goes : Goes src k l (doWhileStatement reader) (k + 1) l := by
  refine .step fun _ => .bind (loopBody_goes reliable.statement) fun body => ?_
  refine .step fun _ => ?_
  refine .bind (headExpression_goes (reliable.mono (by omega))) fun test => ?_
  exact ifMark ⟨nofun, rfl⟩ (.settle (by omega)) (.settle (by omega))

theorem whileStatement_goes : Goes src k l (whileStatement reader) (k + 1) l := by
  refine .step fun _ => .bind (headExpression_goes reliable.next) fun _ => ?_
  exact .bind (loopBody_goes reliable.next.statement) fun _ => .settle (by omega)

theorem enumeration_goes (left : Node) : Goes src k l (enumeration reader left) (k + 1) l :=
  .bind (expression_goes reliable) fun _ => .stay

theorem counting_goes (init : Option Node) : Goes src k l (counting reader init) (k + 1) l := by
  have rest (test : Option Node) : Goes src k l (countingRest reader init test) (k + 1) l := by
    refine .expect rfl fun _ => .fork .stay ?_
    exact .bind (expression_goes reliable.next).map fun _ => .settle (by omega)
  refine .fork (rest none) ?_
  exact .bind ((expression_goes reliable).map.back (Nat.le_succ k)) rest

theorem declaredHead_at (outer : Context) (kind : DeclarationKind) {declarators : ParseM (List Node)}
    {isFit : List Node → Bool} {stop : ParseM Unit} (reads : Goes src (k + 1) l declarators (k + 2) l)
    (stops : Goes src (k + 2) l stop (k + 2) l) (here : p.At src k l) (coherent : Coherent src p token)
    (light : Light token.lexeme) :
    Arrives src (declaredHead reader outer kind declarators isFit stop) p k l := by
  refine (drop_light here coherent light).bind fun _ q there => ?_
  refine Leads.bind (withoutIn_goes reads outer) (fun list r there => ?_) q there
  refine (atKeyword_at .in_ there).bind fun answer r seen => ?_
  obtain ⟨rfl, sees⟩ := seen
  refine .ite (fun holds => ?_) fun _ => ?_
  · have seen := sees (Bool.and_eq_true_iff.mp holds).2
    refine (drop_seen there seen ⟨nofun, rfl⟩).bind fun _ r there => ?_
    exact (enumeration_goes (reliable.mono (by omega)) _).back (by omega) r there
  · exact Leads.bind stops (fun _ => (counting_goes (reliable.mono (by omega)) _).back (by omega)) r there

theorem initSequence_goes (first : Node) : Goes src k l (initSequence reader first) k l := by
  refine .fork (.bind (.repeated ?_ _) fun _ => .stay) .stay
  intro expressions j less
  refine ifMark ⟨nofun, rfl⟩ ?_ (.leave less)
  exact .bind (reliable.mono (by omega)).assignment.isolated fun _ => .again (by omega)

theorem expressionHead_goes (outer : Context) : Goes src k l (expressionHead reader outer) k l := by
  refine .bind (withoutIn_goes (assignmentExpression_goes reliable).inherited outer) fun init => ?_
  refine atKeyword_ite (fun token p here coherent same => ?_) ?_
  · refine .get_bind (.ite (fun _ => ?_) fun _ => ?_)
    · refine (drop_light here coherent (same ▸ ⟨nofun, rfl⟩)).bind fun _ q there => ?_
      refine Leads.bind (reinterpreted_goes init) (fun left => ?_) q there
      exact (enumeration_goes (reliable.mono (by omega)) left).back (by omega)
    · exact complain_meets (formats rfl rfl)
  · refine .bind (initSequence_goes reliable.next init) fun init => ?_
    refine .expect rfl fun _ => ?_
    exact (counting_goes (reliable.mono (by omega)) _).back (by omega)

theorem forHead_goes (outer : Context) : Goes src k l (forHead reader outer) k l := by
  refine lookahead_leads fun token p here coherent => ?_
  refine .ite (fun same => ?_) fun _ => .ite (fun same => ?_) fun _ => ?_
  · refine (drop_light here coherent (same ▸ ⟨nofun, rfl⟩)).bind fun _ q there => ?_
    exact (counting_goes reliable.next none).back (by omega) q there
  · exact declaredHead_at reliable outer .var (variableDeclarators_goes reliable.next)
      ((expect_goes (Int.add_zero l)).back (Nat.le_succ _)) here coherent (same ▸ ⟨nofun, rfl⟩)
  · split
    next kind found =>
      exact declaredHead_at reliable outer kind (lexicalBindings_goes reliable.next _) Stays.goes here
        coherent (lexicalKind?_light found)
    next => exact expressionHead_goes reliable outer p here

theorem forStatement_goes : Goes src k l (forStatement reader) (k + 1) l := by
  refine .past fun outer => .step fun _ => ?_
  refine .expect rfl fun _ => ?_
  refine .bind (forHead_goes (reliable.mono (by omega)) outer) fun head => ?_
  refine .expect rfl fun _ => ?_
  refine .bind (loopBody_goes (reliable.mono (by omega)).statement.isolated) fun body => ?_
  cases head with
  | counting init test update => exact .settle (by omega)
  | enumerating left right => exact .settle (by omega)

/-! ### Jumps -/

theorem returnStatement_goes : Goes src k l (returnStatement reader) (k + 1) l := by
  intro p here
  refine (expectKeyword_at _ here).bind fun _ q met => ?_
  obtain ⟨there, mark, behind⟩ := met
  refine (context_at there).bind fun c r seen => ?_
  obtain ⟨rfl, -⟩ := seen
  refine .ite (fun _ => ?_) fun _ => complain_meets (formats rfl rfl)
  refine (nameFollows_at there behind).bind fun _ q same => ?_
  subst same
  have argument := expression_goes (l := l) reliable.next
  have rest (argument : Option Node) : Goes src (k + 1) l (do
      consumeSemicolon
      pure (Node.returnStatement argument)) (k + 1) l :=
    .past fun _ => .stay
  refine .ite (fun _ => ?_) fun _ => ?_
  · exact Leads.bind (argument.back (Nat.le_succ _)) (fun _ => rest _) q there
  · refine Leads.fork .stay ?_ q there
    refine .past fun token => .ite (rest none) ?_
    exact .bind (argument.map.back (Nat.le_succ _)) rest

theorem throwStatement_goes : Goes src k l (throwStatement reader) (k + 1) l := by
  refine .step fun _ => .past fun _ => ?_
  refine .ite (fun _ _ => complain_meets (formats rfl rfl)) ?_
  refine .bind (expression_goes reliable.next) fun _ => ?_
  exact .past fun _ => .settle (Nat.le_succ _)

/-! ### Statements -/

theorem block_goes : Goes src k l (block reader) (k + 1) l := by
  refine .bind expect_openBrace fun _ => .bind (statementsFrom_goes reliable []) fun _ => ?_
  exact .bind expect_closeBrace fun _ => .settle (Nat.le_succ _)

theorem expressionStatement_goes : Goes src k l (expressionStatement reader) (k + 1) l :=
  .bind (expression_goes reliable) fun _ => .past fun _ => .stay

theorem ifStatement_goes : Goes src k l (ifStatement reader) (k + 1) l := by
  refine .step fun _ => .bind (headExpression_goes reliable.next) fun _ => ?_
  refine .bind reliable.next.statement fun _ => ifKeyword ?_ (.settle (by omega))
  exact .bind (reliable.mono (by omega)).statement fun _ => .settle (by omega)

theorem withStatement_goes : Goes src k l (withStatement reader) (k + 1) l := by
  refine .fork (fun _ _ => complain_meets (formats rfl rfl)) ?_
  refine .step fun _ => .bind (headExpression_goes reliable.next) fun _ => ?_
  exact .bind reliable.next.statement fun _ => .settle (by omega)

theorem clauseTest_goes : Goes src k l (clauseTest reader) (k + 1) l := by
  refine ifKeyword .stay (.step fun _ => ?_)
  exact (expression_goes reliable.next).map.back (Nat.le_succ _)

theorem switchClause_goes : Goes src k l (switchClause reader) (k + 1) l := by
  refine .bind (clauseTest_goes reliable) fun test => .expect rfl fun _ => ?_
  refine .bind (.repeated (fun statements j less => ?_) _) fun _ => .settle (Nat.le_succ (k + 1))
  refine inside_ite (fun p here _ => ?_) fun p here _ => here.mono less
  refine Leads.past (fun _ => .ite (.leave less) ?_) p here
  exact .bind (reliable.mono (by omega)).listItem fun _ => .again (Nat.lt_succ_self j)

theorem switchCases_goes : Goes src k l (switchCases reader) k l := by
  refine .repeated (fun state j less => ?_) _
  obtain ⟨cases, defaultFound⟩ := state
  refine inside_ite (fun p here _ => ?_) fun p here _ => here.mono less
  refine Leads.fork (.leave less) ?_ p here
  refine .bind (switchClause_goes (reliable.mono (by omega))) fun clause => ?_
  exact .ite (fun _ _ => complain_meets (formats rfl rfl)) (.again (Nat.lt_succ_self j))

theorem switchStatement_goes : Goes src k l (switchStatement reader) (k + 1) l := by
  refine .step fun _ => .bind (headExpression_goes reliable.next) fun _ => ?_
  refine .bind expect_openBrace fun _ => atMark_ite (fun token p here coherent same => ?_) ?_
  · refine (drop_at coherent).bind fun _ q taken => ?_
    have level : l + 1 + token.lexeme.weight = l := by
      rw [same]
      exact Int.add_neg_cancel_right l 1
    exact (taken.past here (same ▸ nofun) level).mono (by omega)
  · refine .bind (switchBody_goes (switchCases_goes (reliable.mono (by omega)))) fun _ => ?_
    exact .bind expect_closeBrace fun _ => .settle (by omega)

theorem catchClause_goes : Goes src k l (catchClause reader) (k + 1) l := by
  refine .step fun _ => .expect rfl fun _ => ?_
  refine .fork ?_ ?_
  · exact .past fun token _ _ => unexpected_meets token
  refine .step fun name => ?_
  refine .bind (refuseRestrictedName_goes name (formats rfl rfl)) fun _ => ?_
  refine .expect rfl fun _ => ?_
  exact .bind (block_goes (reliable.mono (by omega))) fun _ => .settle (by omega)

theorem tryStatement_goes : Goes src k l (tryStatement reader) (k + 1) l := by
  have reliable' : Reliable src (k + 3) reader := reliable.mono (by omega)
  refine .step fun _ => .bind (block_goes reliable.next) fun body => ?_
  have answer (handler finalizer : Option Node) :
      Goes src (k + 2) l (tryEnd body handler finalizer) (k + 1) l :=
    .ite (fun _ _ => complain_meets (formats rfl rfl)) (.settle (Nat.le_succ _))
  have rest (handler : Option Node) : Goes src (k + 2) l (tryRest reader body handler) (k + 1) l := by
    refine ifKeyword (.bind ?_ (answer handler)) (answer handler none)
    exact (block_goes reliable'.next).map.back (by omega)
  refine .fork (.bind ?_ rest) (rest none)
  exact (catchClause_goes reliable').map.back (Nat.le_succ _)

theorem labeledStatement_at (name : Text)
    (here : p.At src k l) (coherent : Coherent src p token) (same : token.lexeme = .punctuator .colon) :
    Arrives src (labeledStatement reader name) p k l := by
  refine (drop_light here coherent (same ▸ ⟨nofun, rfl⟩)).bind fun _ q there => ?_
  refine Leads.past (fun c => .ite (fun _ _ => ?_) ?_) q there
  · exact complain_meets (formats rfl rfl)
  · refine .past fun _ => .bind reliable.statement fun _ => ?_
    exact .past fun _ => .settle (by omega)

theorem expressionOrLabel_goes : Goes src k l (expressionOrLabel reader) (k + 1) l := by
  refine .bind (expression_goes reliable) fun result => ?_
  have plain : Goes src (k + 1) l (do
      consumeSemicolon
      pure (Node.expressionStatement result)) (k + 1) l :=
    .past fun _ => .stay
  split
  next name =>
    refine atMark_ite (fun token p here coherent same => ?_) plain
    exact labeledStatement_at reliable.next name here coherent same
  next => exact plain

theorem keywordStatement_goes (word : Keyword) :
    Goes src k l (keywordStatement reader word) (k + 1) l := by
  unfold keywordStatement
  split
  · exact breakStatement_goes
  · exact continueStatement_goes
  · exact debuggerStatement_goes
  · exact doWhileStatement_goes reliable
  · exact forStatement_goes reliable
  · exact functionDeclaration_goes reliable false
  · exact ifStatement_goes reliable
  · exact returnStatement_goes reliable
  · exact switchStatement_goes reliable
  · exact throwStatement_goes reliable
  · exact tryStatement_goes reliable
  · exact variableStatement_goes reliable
  · exact whileStatement_goes reliable
  · exact withStatement_goes reliable
  · exact expressionOrLabel_goes reliable

theorem statement_goes : Goes src k l (statement reader) (k + 1) l := by
  refine lookahead_leads fun token p here _ => ?_
  split
  · exact unexpected_meets token
  · exact block_goes reliable p here
  · exact Leads.bind freshStatement_goes (fun _ => emptyStatement_goes) p here
  · exact Leads.bind freshStatement_goes (fun _ => expressionStatement_goes reliable) p here
  · exact Leads.bind freshStatement_goes (fun _ => keywordStatement_goes reliable _) p here
  · exact Leads.bind freshStatement_goes (fun _ => expressionOrLabel_goes reliable) p here

theorem lexicalDeclaration_at {word : Keyword} (here : p.At src k l) (coherent : Coherent src p token)
    (same : token.lexeme = .keyword word) (declares : word = .const ∨ word = .let_) :
    Arrives src (lexicalDeclaration reader) p (k + 1) l := by
  refine (take_at coherent).bind fun given q met => ?_
  obtain ⟨rfl, taken⟩ := met
  have there := taken.light here (same ▸ ⟨by simp, rfl⟩)
  have rest (kind : DeclarationKind) : Goes src (k + 1) l (do
      let list ← lexicalBindings reader (kind = .const)
      consumeSemicolon
      pure (Node.variableDeclaration kind list)) (k + 1) l := by
    refine .bind (lexicalBindings_goes reliable.next _) fun _ => ?_
    exact .past fun _ => .settle (Nat.le_succ _)
  rw [same]
  rcases declares with rfl | rfl
  · exact rest .const q there
  · exact rest .let_ q there

theorem listItem_goes : Goes src k l (listItem reader) (k + 1) l := by
  refine lookahead_leads fun token p here coherent => ?_
  split
  next => exact unsupported_meets _
  next => exact unsupported_meets _
  next same => exact lexicalDeclaration_at reliable here coherent same (.inl rfl)
  next same => exact lexicalDeclaration_at reliable here coherent same (.inr rfl)
  next => exact functionDeclaration_goes reliable false p here
  next => exact unsupported_meets _
  next same =>
    refine .get_bind (.ite (fun _ => ?_) fun _ => ?_)
    · exact pyimportStatement_at here coherent (same ▸ ⟨nofun, rfl⟩)
    · exact statement_goes reliable p here
  next => exact statement_goes reliable p here

/-! ### Programs -/

theorem rule_reliable : Reliable src k (rule reader) where
  reads goal notCallee j l less := by
    have reliable := reliable.mono (Nat.succ_le_succ less)
    cases goal with
    | assignment => exact assignmentExpression_goes reliable
    | unary => exact unaryExpression_goes reliable
    | leftHandSide => exact absurd rfl notCallee
    | statement => exact statement_goes reliable
    | listItem => exact listItem_goes reliable
  callee j l p c less here := leftHandSide_at (reliable.mono (Nat.succ_le_succ less)) here
  directive _ := listItem_atString

end

/-- Depth and place together reach beyond the source, so the rules never run out of depth. -/
theorem readerOf_reliable (depth : Nat) :
    ∀ k, src.size < k + depth → Reliable src k (readerOf depth) := by
  induction depth with
  | zero =>
    intro k enough
    have beyond {p : Parser} {j : Nat} {l : Int} (less : k ≤ j) (here : p.At src j l) : False := by
      have place := here.place
      have bound := here.place_le_size
      omega
    exact ⟨fun _ _ _ _ less _ here => (beyond less here).elim,
      fun _ _ _ _ less here => (beyond less here).elim, fun _ _ => trivial⟩
  | succ depth ih =>
    intro k enough
    exact rule_reliable (ih (k + 1) (by omega))

theorem scriptBody_leads (reliable : Reliable src k reader) :
    Leads src k l (scriptBody reader) (fun _ q => q.At src k l ∧ q.place = src.size) := by
  refine .bind (directives_goes reliable) fun body => .repeated (fun statements j less => ?_) _
  refine inside_ite (fun p here _ => ?_) fun p here ended => ⟨here.mono less, ended⟩
  exact Leads.bind (reliable.mono less).listItem (fun _ => .again (Nat.lt_succ_self j)) p here

theorem scriptBody_context (restores : Restores reader) (p : Parser) :
    Meets (scriptBody reader) p (fun _ q => q.context = p.context) anyFault := by
  have holds : ∀ c, p.context = some c → c = p.context.getD {} := by simp +contextual
  have keeps := Discipline.scriptBody_upholds (d := restorative)
    (s := { context := p.context.getD {}, loose := true }) rfl restores [] false p p ⟨rfl, holds⟩ holds
  exact keeps.imp fun _ _ met => met.2.context

/-- A program that has been read is a tree, and the parser stands at the end of the source in the
context in which it started. -/
theorem program_meets (reliable : Reliable src 0 reader) (restores : Restores reader)
    (poised : Poised src p) : Meets (program reader) p (fun node q => (∃ body, node = .program body) ∧
      q.At src 0 ((p.cursor.braces.map List.length).getD 0) ∧ q.place = src.size ∧
      q.context = p.context) (Acceptable src) := by
  refine ((peek_meets poised).and_returns (peek_keeps p)).bind fun _ q met => ?_
  obtain ⟨lexed, agrees⟩ := met
  have here : q.At src 0 ((p.cursor.braces.map List.length).getD 0) :=
    ⟨lexed.coherent, Nat.zero_le _, lexed.level⟩
  refine ((scriptBody_leads reliable q here).and_returns (scriptBody_context restores q)).bind
    fun body r met => ?_
  obtain ⟨⟨there, ended⟩, kept⟩ := met
  exact ⟨⟨body, rfl⟩, there, ended, kept.trans agrees.context⟩

end Grammar

/-- The parser has read its program to the end and closed what it opened. -/
structure Parser.Finished (src : Source) (q : Parser) : Prop where
  context : q.context = some {}
  braces : q.cursor.braces = some []
  lookahead : ∃ token, q.lookahead = some token ∧ token.lexeme = .endOfSource
  index : q.cursor.index = src.size

theorem Parser.Finished.of_at {src : Source} {q : Parser} (here : q.At src 0 0)
    (ended : q.place = src.size) (context : q.context = some {}) : q.Finished src := by
  obtain ⟨token, coherent⟩ := here.coherent
  have isEnd : token.lexeme = .endOfSource :=
    Decidable.not_not.mp fun notEnd =>
      Nat.lt_irrefl _ (ended ▸ coherent.place_lt_size_iff.mpr notEnd)
  obtain ⟨braces, opened⟩ := coherent.braces
  refine ⟨context, ?_, ⟨token, coherent.lookahead, isEnd⟩, ?_⟩
  · have level := coherent.level_eq opened
    rw [here.level, isEnd] at level
    have none : braces.length = 0 := Int.natCast_eq_zero.mp level.symm
    rw [opened, List.length_eq_zero_iff.mp none]
  · rw [← coherent.stop_eq, (coherent.ended isEnd).2]

namespace Parser

/-- What is put after the program `code` makes it a sealed source. -/
abbrev sourceOf (code : Text) : Source :=
  Source.ofText (code ++ sentinel)

theorem begin_meets (p : Parser) (code : Text) : Meets (Grammar.deep Grammar.program) (p.begin code)
      (fun node q => (∃ body, node = .program body) ∧ q.Finished (sourceOf code))
      (Acceptable (sourceOf code)) := by
  have poised : Poised (sourceOf code) (p.begin code) := .of_begin p code
  have deep : (sourceOf code).size < 0 + Grammar.depthFor (some (sourceOf code)) := by
    simp only [Grammar.depthFor, Option.map_some, Option.getD_some]
    omega
  have reliable := Grammar.readerOf_reliable _ 0 deep
  refine .get_bind ?_
  refine (Grammar.program_meets reliable (Grammar.readerOf_restores _) poised).imp fun node q met => ?_
  obtain ⟨tree, here, ended, context⟩ := met
  exact ⟨tree, .of_at here ended context⟩

/-- The faults of a program, once a feature that is not supported has become a complaint. -/
theorem program_faults {p q : Parser} {code : Text} {fault : Fault}
    (run : p.program code = .error fault q) : (∃ line complaint, fault = .malformed line complaint) ∨
      fault = .noOpenBrace ∧ q.scanning = some true ∧ code[q.cursor.index]? = some 0x7D ∧
        q.cursor.braces = some [] := by
  have met := begin_meets p code
  unfold program at run
  split at run
  next => cases run
  next feature r failed =>
    cases run
    exact .inl ⟨_, _, rfl⟩
  next fault r other failed =>
    cases run
    have acceptable := met.of_error failed
    have ends := Sealed.ofText code
    cases fault with
    | malformed line complaint => exact .inl ⟨line, complaint, rfl⟩
    | unsupported feature => exact absurd rfl (other feature)
    | noOpenBrace =>
      obtain ⟨scanning, found, braces⟩ := acceptable
      have inCode := ends.inCode found (by decide)
      have found : (code ++ sentinel)[q.cursor.index]? = some 0x7D := by
        simpa [sourceOf, Source.ofText] using found
      rw [List.getElem?_append_left inCode] at found
      exact .inr ⟨rfl, scanning, found, braces⟩
    | pastEnd | missingKey => exact absurd ends (acceptable code.length)
    | _ => exact acceptable.elim

theorem program_finishes {p q : Parser} {code : Text} {node : Node} (run : p.program code = .ok node q) :
    (∃ body, node = .program body) ∧ q.Finished (sourceOf code) := by
  have met := begin_meets p code
  unfold program at run
  split at run
  next node r answered =>
    cases run
    have finished := met.of_ok answered
    exact finished
  next => cases run
  next => cases run

end Parser

/-- Every program is read into a tree or refused with a complaint, with one exception: a closing
brace, just being scanned, without an open brace that it could close. -/
theorem parse_outcomes (settings : Settings) (code : Text) :
    (∃ body, parse settings code = .ok (.program body)) ∨
    (∃ line complaint, parse settings code = .error (.malformed line complaint)) ∨
    ∃ q : Parser, Parser.program { settings } code = .error .noOpenBrace q ∧
      parse settings code = .error .noOpenBrace ∧ q.scanning = some true ∧
      code[q.cursor.index]? = some 0x7D ∧ q.cursor.braces = some [] := by
  unfold parse
  cases run : Parser.program { settings } code with
  | ok node q =>
    obtain ⟨⟨body, rfl⟩, -⟩ := Parser.program_finishes run
    exact .inl ⟨body, rfl⟩
  | error fault q =>
    rcases Parser.program_faults run with ⟨line, complaint, rfl⟩ | ⟨rfl, scanning, found, braces⟩
    · exact .inr (.inl ⟨line, complaint, rfl⟩)
    · exact .inr (.inr ⟨q, rfl, rfl, scanning, found, braces⟩)

example : (match parse {} (Text.ofString "a\x7d") with
    | .error fault => fault = .noOpenBrace
    | .ok _ => false) = true := by decide +kernel

namespace Grammar

open Parse Discipline

variable {reader : Reader}

theorem pyimportStatement_keeps : Keeps pyimportStatement :=
  .bind .get fun _ => .ite (.of_takes imported_reads) (unsupported_keeps _)

theorem nodeRules_keep (restores : Restores reader) : ∀ entry ∈ nodeRules,
    entry.1 ∉ ["FunctionSourceElements", "ConciseBody", "Program"] → Keeps (entry.2 reader) := by
  have template : ∀ {c}, restorative.Reads { context := c } templateLiteral templateLiteral :=
    templateLiteral_takes
  simp only [nodeRules, List.forall_mem_cons]
  refine ⟨fun _ => unsupported_keeps _, fun _ => propertyPattern_keeps restores,
    fun _ => unsupported_keeps _, fun _ => .map _ (.of_takes (α := Text) pattern_upholds),
    fun _ => patternWithDefault_keeps restores, fun _ => .of_takes (arrayInitializer_reads restores),
    fun _ => .of_takes (method_reads restores), fun _ => propertyKey_keeps restores,
    fun _ => .of_takes (objectInitializer_reads restores), fun _ => .of_takes template,
    fun _ => .of_takes (group_reads restores), fun _ => .of_takes (primary_reads restores),
    fun _ => .of_takes dottedName_upholds, fun _ => .of_takes dottedMember_upholds,
    fun _ => .of_takes (computedMember_reads restores),
    fun _ => .of_takes (newExpression_reads restores),
    fun _ => .of_takes (leftHandSideAllowCall_reads restores),
    fun _ => .of_takes (leftHandSide_reads restores),
    fun _ => .of_takes (postfixExpression_reads restores),
    fun _ => .of_takes (unaryExpression_reads restores),
    fun _ => .of_takes (binaryExpression_reads restores),
    fun _ => .of_takes (conditionalExpression_reads restores),
    fun other => absurd (.tail _ (.head _)) other,
    fun _ => .of_takes (assignmentExpression_reads restores),
    fun _ => .of_takes (expression_reads restores), fun _ => .of_takes (listItem_states restores),
    fun _ => pyimportStatement_keeps, fun _ => .of_takes (block_states restores),
    fun _ => bindingIdentifier_keeps, fun _ => .of_takes (variableDeclarator_reads restores),
    fun _ => unsupported_keeps _,
    fun _ => .bind (.of_takes (switchClause_upholds restores)) fun _ => .pure _,
    fun _ => .of_takes (catchClause_states restores),
    fun _ => .of_takes (statement_states restores),
    fun other => absurd (.head _) other, fun _ => .of_takes (functionExpression_reads restores),
    fun _ => unsupported_keeps _, fun _ => unsupported_keeps _,
    fun other => absurd (.tail _ (.tail _ (.head _))) other, by simp⟩

theorem statementRules_keep (restores : Restores reader) :
    ∀ entry ∈ statementRules, Keeps (entry.2 reader) := by
  have stated : ∀ {c}, restorative.States { context := c } (expressionStatement reader)
      (expressionStatement reader) :=
    .bind (expression_reads restores) fun _ closed => expressionStatement_takes closed
  simp only [statementRules, List.forall_mem_cons]
  exact ⟨.of_takes (variableStatement_reads restores), .of_takes emptyStatement_reads,
    .of_takes stated, .of_takes (ifStatement_states restores),
    .of_takes (doWhileStatement_states restores), .of_takes (whileStatement_states restores),
    .of_takes (forStatement_states restores), .of_takes continueStatement_states,
    .of_takes breakStatement_states, .of_takes (returnStatement_states restores),
    .of_takes (withStatement_states restores), .of_takes (switchStatement_states restores),
    .of_takes (throwStatement_reads restores), .of_takes (tryStatement_states restores),
    .of_takes debuggerStatement_reads,
    .of_takes (functionDeclaration_reads restores false), by simp⟩

theorem listRules_keep (restores : Restores reader) : ∀ entry ∈ listRules,
    entry.1 ≠ "ScriptBody" → Keeps (entry.2 reader) := by
  simp only [listRules, List.forall_mem_cons]
  exact ⟨fun _ => .of_takes (arguments_readsAll restores),
    fun _ => .of_takes (statementsFrom_takes restores (by simp)),
    fun _ => .of_takes (variableDeclarators_readsAll restores), fun other => absurd rfl other, by simp⟩

/-- A rule that answers has put back what the enclosing constructs allow, and code after it is as
strict as code before it; only the bodies of functions and programs may end stricter than they began.
So a program that is read to its end leaves nothing open. -/
theorem rules_restore_context : (∀ depth, ∀ entry ∈ nodeRules ++ statementRules,
      entry.1 ∉ ["FunctionSourceElements", "ConciseBody", "Program"] →
      ∀ p node q, entry.2 (readerOf depth) p = .ok node q → q.context = p.context ∧ q.strict = p.strict) ∧
    (∀ depth, ∀ entry ∈ listRules, entry.1 ≠ "ScriptBody" →
      ∀ p nodes q, entry.2 (readerOf depth) p = .ok nodes q →
        q.context = p.context ∧ q.strict = p.strict) ∧
    (∀ depth p node q, lexicalDeclaration (readerOf depth) p = .ok node q →
      q.context = p.context ∧ q.strict = p.strict) ∧
    (∀ (p : Parser) code node q, p.program code = .ok node q → q.Finished (Parser.sourceOf code)) := by
  refine ⟨fun depth entry listed other p node q run => ?_,
    fun depth entry listed other p nodes q run => ?_, fun depth p node q run => ?_,
    fun p code node q run => (Parser.program_finishes run).2⟩
  · have keeps : Keeps (entry.2 (readerOf depth)) := by
      rcases List.mem_append.mp listed with listed | listed
      · exact nodeRules_keep (readerOf_restores depth) entry listed other
      · exact statementRules_keep (readerOf_restores depth) entry listed
    exact ⟨(keeps.of_ok run).context, (keeps.of_ok run).strict⟩
  · have agrees := (listRules_keep (readerOf_restores depth) entry listed other).of_ok run
    exact ⟨agrees.context, agrees.strict⟩
  · have agrees := (Keeps.of_takes (lexicalDeclaration_reads (readerOf_restores depth))).of_ok run
    exact ⟨agrees.context, agrees.strict⟩

/-- A labelled loop over a `switch`, read as a statement and as a program. -/
theorem rules_restore_context_labeled_loop : (∃ p node q, statement (readerOf 40) p = .ok node q ∧
      q.context = p.context ∧ q.strict = p.strict) ∧
    ∃ node q, Parser.program {} (Text.ofString "a:for(b in c)switch(b)\x7bcase 1:break a\x7d") =
        .ok node q ∧
      q.Finished (Parser.sourceOf (Text.ofString "a:for(b in c)switch(b)\x7bcase 1:break a\x7d")) := by
  constructor
  · obtain ⟨node, q, run⟩ := Meets.runs (m := do peek; statement (readerOf 40)) (s := Parser.begin {}
      (Text.ofString "a:for(b in c)switch(b)\x7bcase 1:break a\x7d")) (by decide +kernel)
    obtain ⟨_, p, -, run⟩ := bind_ok_iff.mp run
    refine ⟨p, node, q, run, rules_restore_context.1 40 ("Statement", statement) ?_ ?_ p node q run⟩
    · simp [nodeRules]
    · simp
  · obtain ⟨node, q, run⟩ := Meets.runs (m := deep program) (s := Parser.begin {}
      (Text.ofString "a:for(b in c)switch(b)\x7bcase 1:break a\x7d")) (by decide +kernel)
    refine ⟨node, q, ?whole, rules_restore_context.2.2.2 _ _ node q ?whole⟩
    rw [Parser.program, run]

end Grammar

end EcmaScript
