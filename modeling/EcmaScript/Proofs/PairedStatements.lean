import EcmaScript.Proofs.PairedExpressions

/-!
Statements on both sides of a pairing. A statement may be the last one of the program on the left, in
which case the two sides part. What would have to go on behind it is then refused on the left, and so
there is nothing to show of the right side. From the rules readers of every depth are paired.
-/

namespace EcmaScript

open Parse Grammar

variable {α β : Type} {w : Pairing} {k : Ties} {p q : Parser} {t u : Token} {seen last : Prop}
variable {reader reader' : Reader}

namespace Parser.Ended

variable {src : Source}

theorem lookahead_bind {f : Token → ParseM α} {after : α → Parser → Prop} (ended : p.Ended src)
    (next : ∀ token : Token, token.lexeme = .endOfSource → Meets (f token) p after anyFault) :
    Meets (Parse.lookahead >>= f) p after anyFault := by
  obtain ⟨token, coherent, isEnd⟩ := ended
  refine (lookahead_returns p).bind ?_
  rintro found _ ⟨rfl, looked⟩
  obtain rfl : token = found := Option.some.inj (coherent.lookahead.symm.trans looked)
  exact next token isEnd

end Parser.Ended

namespace Pairing

/-! ### The last statement -/

section

variable {γ δ : Type} {kept : γ → Parser → δ → Parser → Prop}

/-- What would have to go on behind the last statement is refused. -/
theorem Relates.onward {m n : ParseM α} {f : α → ParseM γ} {g : α → ParseM δ} {later : γ → δ → Prop}
    (first : w.Concludes seen k m n)
    (never : ∀ a p, p.Ended w.left → Meets (f a) p (fun _ _ => False) anyFault)
    (rest : ∀ a, w.Relates True last k later (f a) (g a)) :
    w.Relates seen last k later (m >>= f) (n >>= g) := by
  refine fun p q near => (first near).bind ?_
  rintro a p _ q ⟨rfl, near | ⟨-, parted⟩⟩
  · exact rest a near
  · exact .of_never (never a p parted.ended)

theorem Parted.else_bind {f : Bool → ParseM γ} {g : Bool → ParseM δ} (parted : w.Parted k p q)
    (next : Mirrors .exhausted (f false) (g false) p q kept) :
    Mirrors .exhausted (atKeyword .else_ >>= f) (atKeyword .else_ >>= g) p q kept := by
  obtain ⟨token, coherent, isEnd⟩ := parted.ended
  obtain ⟨token', looked, other⟩ := w.separate parted.beyond
  unfold atKeyword lookahead
  simp only [bind_assoc]
  refine .get_bind ?_
  simp only [coherent.lookahead, looked, pure_bind, isEnd, other]
  exact next

end

/-! ### Declarations -/

theorem refuseRestrictedName_checks (name : Text) (message : Message) :
    Checks k (refuseRestrictedName name message) (refuseRestrictedName name message) :=
  .of_strict .pure

theorem declarators_agrees {part part' : ParseM Node} (parts : ∀ seen, w.Agrees seen k part part') :
    w.Agrees seen k (declarators part) (declarators part') := by
  refine fun p q near => repeated_mirrors (fun l p l' q => l = l' ∧ ∃ seen, w.Near seen k p q) ?_
    ⟨rfl, seen, near⟩
  rintro list p _ q ⟨rfl, seen, near⟩
  refine (parts seen near).agree fun next p q reached => ?_
  refine atMark_ite reached.near (fun looks => ?_) (.pure ⟨rfl, reached⟩)
  refine (drop_mirrors reached.near looks).bind fun _ p _ q met => ?_
  exact inside_bind (met.2 nofun).1 (.pure ⟨rfl, True, (met.2 nofun).1⟩)

theorem closed_concludes (node : Node) :
    w.Concludes True k (do consumeSemicolon; pure node) (do consumeSemicolon; pure node) :=
  consumeSemicolon_agrees.returns

section

variable (mates : w.Mates reader reader')
include mates

theorem initializer?_agrees : w.Agrees True k (initializer? reader) (initializer? reader') :=
  .atMark (fun _ _ near looks => .map ((initializer_agrees mates near looks).imp fun _ _ _ _ met =>
    ⟨congrArg some met.1, met.2⟩)) (.pure rfl)

theorem variableDeclarators_agrees :
    w.Agrees seen k (variableDeclarators reader) (variableDeclarators reader') :=
  declarators_agrees fun _ => .next pattern_agrees fun name =>
    (refuseRestrictedName_checks name _).next (.returns (initializer?_agrees mates))

theorem lexicalBindings_agrees (constant : Bool) :
    w.Agrees seen k (lexicalBindings reader constant) (lexicalBindings reader' constant) :=
  declarators_agrees fun _ => .next pattern_agrees fun name =>
    (refuseRestrictedName_checks name _).next <| .ite
      (.atKeyword (by decide) (.of (.pure rfl))
        (.expect nofun (.returns (.map (.isolated mates.assignment) some))))
      (.returns (initializer?_agrees mates))

theorem variableStatement_concludes :
    w.Concludes seen k (variableStatement reader) (variableStatement reader') :=
  .expectKeyword (by decide) <| .next (variableDeclarators_agrees mates) fun _ => closed_concludes _

theorem lexicalDeclaration_concludes :
    w.Concludes seen k (lexicalDeclaration reader) (lexicalDeclaration reader') := by
  refine fun p q near => (take_mirrors near).bind ?_
  rintro t p u q ⟨facing, advanced⟩
  rw [← facing.test_eq spelledKind? (by decide)]
  split
  next kind isKind =>
    have near := advanced.near fun isSemicolon => by simp [isSemicolon, spelledKind?, lexicalKind?] at isKind
    exact near.relate (.next (lexicalBindings_agrees mates _) fun _ => closed_concludes _)
  next => exact .of_never (.ite (fun _ => trivial) fun _ => trivial)

/-! ### Iterations -/

omit mates in
theorem loopBody_concludes {body body' : ParseM Node} (bodies : w.Concludes seen k body body') :
    w.Concludes seen k (loopBody body) (loopBody body') :=
  .context fun _ => .inContext bodies

theorem headExpression_agrees :
    w.Agrees seen k (headExpression reader) (headExpression reader') :=
  .expect nofun <| .next (expression_agrees mates) fun _ => .expect nofun (.pure rfl)

theorem doWhileStatement_concludes :
    w.Concludes seen k (doWhileStatement reader) (doWhileStatement reader') :=
  .expectKeyword (by decide) <| .onward (loopBody_concludes mates.statement)
    (fun _ _ ended => (ended.never (expectKeyword_goes .while_).goes).bind fun _ _ => False.elim)
    fun _ => .expectKeyword (by decide) <| .next (headExpression_agrees mates) fun _ =>
      .atMark (.of (.returns drop_agrees)) (.pure rfl)

theorem whileStatement_concludes :
    w.Concludes seen k (whileStatement reader) (whileStatement reader') :=
  .expectKeyword (by decide) <| .next (headExpression_agrees mates) fun _ =>
    .returns (loopBody_concludes mates.statement)

theorem counting_agrees (init : Option Node) :
    w.Agrees seen k (counting reader init) (counting reader' init) := by
  have closing {seen : Prop} (test : Option Node) :
      w.Agrees seen k (countingRest reader init test) (countingRest reader' init test) := by
    refine .onward semicolon_agrees (fun _ p ended => ?_) fun _ =>
      .atMark (.of (.pure rfl)) (.returns (.map (expression_agrees mates) some))
    unfold atMark
    rw [bind_assoc]
    refine ended.lookahead_bind fun token isEnd => ?_
    rw [pure_bind, isEnd, if_neg (by decide)]
    have never : Meets (some <$> expression reader) p (fun _ _ => False) anyFault :=
      Meets.map_iff.mpr (ended.never (expression_goes mates.reliable))
    exact never.bind fun _ _ impossible => impossible.elim
  exact .atMark (.of (closing none)) (.next (.map (expression_agrees mates) some) closing)

theorem enumeration_agrees (left : Node) :
    w.Agrees seen k (enumeration reader left) (enumeration reader' left) :=
  .returns (expression_agrees mates)

/-- What comes behind the semicolon of a head. -/
theorem afterInit_agrees {m n : ParseM Unit} (init : Option Node) (first : w.Concludes seen k m n) :
    w.Agrees seen k (do m; counting reader init) (do n; counting reader' init) :=
  .onward first (fun _ _ ended => ended.never (counting_goes mates.reliable init))
    fun _ => counting_agrees mates init

theorem declaredHead_agrees (outer : Context) (kind : DeclarationKind) (isFit : List Node → Bool)
    {declarators declarators' : ParseM (List Node)} {stop : ParseM Unit} {lexeme : Lexeme}
    (notMark : lexeme ≠ .punctuator .semicolon) (reads : w.Agrees True k declarators declarators')
    (stops : w.Concludes True k stop stop) : w.Upon lexeme seen False k Eq
      (declaredHead reader outer kind declarators isFit stop)
      (declaredHead reader' outer kind declarators' isFit stop) := by
  refine .pass notMark <| .next (.inContext reads) fun list => ?_
  have other := afterInit_agrees mates (some (.variableDeclaration kind list)) stops
  cases isFit list with
  | false => exact .test (fun lexeme => lexeme = .keyword .in_) (by decide) fun _ => other
  | true =>
    simp only [Bool.true_and]
    exact .atKeyword (by decide) (.pass nofun (enumeration_agrees mates _)) other

theorem initSequence_agrees (first : Node) :
    w.Agrees True k (initSequence reader first) (initSequence reader' first) :=
  .atMark (.of (.returns (.loop fun _ => .atMark (.pass nofun (.returns (.isolated mates.assignment)))
    (.pure rfl)))) (.pure rfl)

theorem expressionHead_agrees (outer : Context) (targets : k.targets) :
    w.Agrees seen k (expressionHead reader outer) (expressionHead reader' outer) := by
  refine .next (.inContext (.inherited (assignmentExpression_agrees mates))) fun init =>
    .atKeyword (by decide) (fun p q near looks => .get_bind ?_) (.next (initSequence_agrees mates init)
      fun init => afterInit_agrees mates _ semicolon_agrees)
  rw [near.targets targets]
  refine .ite (fun _ => near.upon looks (.pass nofun ?_)) fun _ => .of_never (complain_never _)
  unfold reinterpreted
  split
  · exact .next (.pure rfl) (enumeration_agrees mates)
  · exact .of_never fun _ => trivial

theorem forHead_agrees (outer : Context) (targets : k.targets) :
    w.Agrees seen k (forHead reader outer) (forHead reader' outer) := by
  refine .tests (fun lexeme => (decide (lexeme = .punctuator .semicolon),
    decide (lexeme = .keyword .var), lexicalKind? lexeme)) (by decide) fun t u same p q near looks => ?_
  simp only [Prod.mk.injEq, decide_eq_decide] at same
  obtain ⟨semicolon, var, kind⟩ := same
  dsimp only
  rw [← kind]
  refine .ite_iff semicolon (fun _ => ?_) fun other => .ite_iff var (fun isVar => ?_) fun _ => ?_
  · exact near.relate (afterInit_agrees mates none drop_agrees)
  · exact near.upon looks (declaredHead_agrees mates outer _ _ other (variableDeclarators_agrees mates)
      semicolon_agrees)
  · split
    next => exact near.upon looks (declaredHead_agrees mates outer _ _ other
      (lexicalBindings_agrees mates _) consumeSemicolon_agrees)
    next => exact near.relate (expressionHead_agrees mates outer targets)

theorem forStatement_concludes (targets : k.targets) :
    w.Concludes seen k (forStatement reader) (forStatement reader') := by
  refine .context fun outer => .expectKeyword (by decide) <| .expect nofun <|
    .next (forHead_agrees mates outer targets) fun head => .expect nofun ?_
  cases head with
  | counting init test update => exact .returns (loopBody_concludes (.isolated mates.statement))
  | enumerating left right => exact .returns (loopBody_concludes (.isolated mates.statement))

end

/-! ### Jumps -/

theorem checkJump_checks (allowed : Context → Bool) (message : Message) :
    Checks k (checkJump allowed message) (checkJump allowed message) :=
  fun _ _ alike => context_bind alike fun _ => .ite (fun _ => .pure ⟨rfl, rfl⟩) fun _ =>
    .of_never (complain_never _)

/-- A word does not stand where a semicolon may be left out, unless a line ends before it. -/
theorem consumeSemicolon_refuses {word : Keyword} (facing : w.Facing seen p q t u)
    (isWord : t.lexeme = .keyword word) (unbroken : p.cursor.lineBreak ≠ some true) :
    Meets consumeSemicolon p (fun _ _ => False) anyFault := by
  suffices refused : Meets consumeSemicolon p (fun _ _ => False) (Acceptable w.left) from
    refused.mono (fun _ _ => id) fun _ _ _ => trivial
  have here : p.At w.left p.place p.level := ⟨⟨t, facing.left⟩, Nat.le_refl _, rfl⟩
  have known {token : Token} (looked : p.lookahead = some token) : token.lexeme = .keyword word := by
    obtain rfl : t = token := Option.some.inj (facing.left.lookahead.symm.trans looked)
    exact isWord
  refine (source_at here).bind ?_
  rintro _ p ⟨rfl, rfl⟩
  refine (startMark_at here).bind ?_
  rintro mark p ⟨rfl, -, place⟩
  rw [place, facing.left.place_eq, if_neg fun isSemicolon => ?_]
  · unfold atMark
    rw [bind_assoc]
    refine (lookahead_at here).bind ?_
    rintro token p ⟨rfl, coherent⟩
    rw [pure_bind, known coherent.lookahead, if_neg (by simp)]
    unfold afterLineBreak
    rw [bind_assoc]
    refine .get_bind ?_
    rw [pure_bind, if_neg (by simpa using unbroken)]
    refine .modify_bind ?_
    have moved : { p with last := p.start : Parser }.At _ _ _ :=
      here.congr rfl rfl facing.left.start rfl rfl facing.left.context
    refine (lookahead_at moved).bind ?_
    rintro token _ ⟨rfl, coherent⟩
    rw [known coherent.lookahead, if_neg (by simp)]
    exact unexpected_meets token
  · cases (facing.semicolon isSemicolon).symm.trans isWord

theorem jumpLabel?_agrees (near : w.Near True k p q) (facing : w.Facing True p q t u)
    (same : t.lexeme = u.lexeme) : w.Reaches False k Eq jumpLabel? jumpLabel? p q := by
  refine facing_bind facing ?_
  rw [← same]
  split
  · exact near.relate (.next bindingName_agrees fun _ => .context fun _ =>
      .ite (.pure rfl) (.of_never complain_never))
  · exact near.relate (.pure rfl)

theorem labelled_reaches (allowed : Context → Bool) (message : Message) (near : w.Near True k p q)
    (unbroken : p.cursor.lineBreak ≠ some true) : w.Reaches True k Eq (do
        let label ← jumpLabel?
        consumeSemicolon
        match label with
        | some name => pure (some (Node.identifier name))
        | none => do
          checkJump allowed message
          pure none)
      (do
        let label ← jumpLabel?
        consumeSemicolon
        match label with
        | some name => pure (some (Node.identifier name))
        | none => do
          checkJump allowed message
          pure none) p q := by
  obtain ⟨t, u, facing⟩ := near.tokens
  rcases facing.lexeme with same | ⟨word, -, isWord, -⟩
  · refine (jumpLabel?_agrees near facing same).agree fun label p q reached => ?_
    refine (consumeSemicolon_agrees reached.near).bind fun _ p _ q ⟨_, reached⟩ => ?_
    cases label with
    | some name => exact .pure ⟨rfl, reached⟩
    | none => exact (checkJump_checks allowed message).reached reached
  · have unlabelled : Meets jumpLabel? p (fun _ p' => p' = p) anyFault := by
      refine (lookahead_returns p).bind ?_
      rintro token _ ⟨rfl, looked⟩
      obtain rfl : t = token := Option.some.inj (facing.left.lookahead.symm.trans looked)
      rw [isWord]
      exact rfl
    refine .of_never (unlabelled.bind ?_)
    rintro _ _ rfl
    exact (consumeSemicolon_refuses facing isWord unbroken).bind fun _ _ => False.elim

theorem jumpTail_concludes (allowed : Context → Bool) (message : Message) (immediate : Bool) :
    w.Concludes True k (jumpTail allowed message immediate) (jumpTail allowed message immediate) := by
  have checks := checkJump_checks (k := k) allowed message
  refine .ite (fun p q near => ?_) fun p q near => afterLineBreak_bind near fun found isBroken => ?_
  · exact (drop_agrees near).bind fun _ _ _ _ met => checks.reached met.2
  · refine .ite (fun _ => checks.reached near.reached) fun isFalse => ?_
    exact labelled_reaches allowed message near (mt isBroken.mpr isFalse)

theorem characterAt_bind {γ δ : Type} {alike : γ → Parser → δ → Parser → Prop}
    {f : CodePoint → ParseM γ} {g : CodePoint → ParseM δ} {i j : Nat} (near : w.Near seen k p q)
    (behind : w.leftBase ≤ i) (place : i + w.rightBase = j + w.leftBase)
    (next : ∀ ch, Mirrors .exhausted (f ch) (g ch) p q alike) :
    Mirrors .exhausted (characterAt i >>= f) (characterAt j >>= g) p q alike := by
  obtain ⟨t, u, facing⟩ := near.tokens
  unfold characterAt
  rw [bind_assoc, bind_assoc]
  refine source_bind facing ?_
  cases here : w.left[i]? with
  | none => exact .of_never trivial
  | some ch =>
    rw [w.chars behind place here]
    exact next ch

theorem lastMark_bind {γ δ : Type} {alike : γ → Parser → δ → Parser → Prop}
    {f : Mark → ParseM γ} {g : Mark → ParseM δ} (fetched : w.Fetched p q)
    (next : ∀ mark mark' : Mark, w.leftBase ≤ mark.index →
      mark.index + w.rightBase = mark'.index + w.leftBase →
      Mirrors .exhausted (f mark) (g mark') p q alike) :
    Mirrors .exhausted (lastMark >>= f) (lastMark >>= g) p q alike := by
  obtain ⟨mark, mark', last, last', behind, place⟩ := fetched.last
  unfold lastMark
  rw [bind_assoc, bind_assoc]
  refine .get_bind ?_
  simp only [last, last']
  exact next mark mark' behind place

theorem continueStatement_concludes : w.Concludes seen k continueStatement continueStatement := by
  refine .expectKeyword (by decide) fun p q near => ?_
  obtain ⟨t, u, facing⟩ := near.tokens
  refine startMark_bind facing fun mark mark' index index' => ?_
  exact characterAt_bind near (index ▸ facing.behind) (by rw [index, index']; exact facing.start)
    fun ch => near.relate (.returns (jumpTail_concludes _ _ _))

theorem breakStatement_concludes : w.Concludes seen k breakStatement breakStatement := by
  refine fun p q near => (expectKeyword_mirrors .break_ near (by decide)).bind fun _ p _ q met => ?_
  exact lastMark_bind met.2 fun mark mark' behind place => characterAt_bind met.1 behind place
    fun ch => met.1.relate (.returns (jumpTail_concludes _ _ _))

theorem nameFollows_reaches (near : w.Near True k p q) (fetched : w.Fetched p q) :
    w.Reaches False k Eq nameFollows nameFollows p q := by
  refine lastMark_bind fetched fun mark mark' behind place => ?_
  refine characterAt_bind near behind place fun ch => ?_
  refine .ite (fun _ => ?_) fun _ => near.relate (.pure rfl)
  exact characterAt_bind near (by omega) (by omega) fun ch => near.relate (.pure rfl)

theorem returnStatement_concludes (mates : w.Mates reader reader') :
    w.Concludes seen k (returnStatement reader) (returnStatement reader') := by
  refine fun p q near => (expectKeyword_mirrors .return_ near (by decide)).bind
    fun _ p _ q ⟨near, fetched⟩ => context_bind near.toAlike fun c =>
      .ite (fun _ => ?_) fun _ => .of_never (complain_never _)
  refine (nameFollows_reaches near fetched).agree fun found p q reached => reached.near.relate ?_
  refine .ite (.next (expression_agrees mates) fun _ => closed_concludes _) <|
    .afterLineBreak fun _ => .ite (.pure rfl) ?_
  refine .tests (fun lexeme => decide (lexeme = .punctuator .semicolon) ||
    decide (lexeme = .punctuator .closeBrace) || decide (lexeme = .endOfSource)) (fun _ _ => rfl)
    fun t u same => .of ?_
  dsimp only
  rw [← same]
  exact .ite (closed_concludes _) (.next (.map (expression_agrees mates) some) fun _ => closed_concludes _)

theorem throwStatement_concludes (mates : w.Mates reader reader') :
    w.Concludes seen k (throwStatement reader) (throwStatement reader') :=
  .expectKeyword (by decide) <| .afterLineBreak fun _ => .ite (.of_never complain_never) <|
    .next (expression_agrees mates) fun _ => closed_concludes _

/-! ### Compound statements -/

section

variable (mates : w.Mates reader reader')
include mates

theorem ifStatement_concludes : w.Concludes seen k (ifStatement reader) (ifStatement reader') := by
  refine .expectKeyword (by decide) <| .next (headExpression_agrees mates) fun test p q near => ?_
  refine (mates.statement near).bind ?_
  rintro consequent p _ q ⟨rfl, near | ⟨last, parted⟩⟩
  · exact near.relate (.atKeyword (by decide) (.pass nofun (.returns mates.statement)) (.pure rfl))
  · exact parted.else_bind (.pure ⟨rfl, .inr ⟨last, parted⟩⟩)

theorem withStatement_concludes :
    w.Concludes seen k (withStatement reader) (withStatement reader') := by
  refine fun p q near => isStrict_bind near fun stricter => near.relate ?_
  exact .refuse stricter complain_never <| .expectKeyword (by decide) <|
    .next (headExpression_agrees mates) fun _ => .returns mates.statement

theorem clauseTest_agrees : w.Agrees seen k (clauseTest reader) (clauseTest reader') :=
  .atKeyword (by decide) (.pass nofun (.pure rfl))
    (.expectKeyword (by decide) (.map (expression_agrees mates) some))

theorem switchClause_unless : w.AgreesUnless True k (switchClause reader) (switchClause reader') := by
  refine fun p q near => (clauseTest_agrees mates near).bind_unless ?_
  rintro test p _ q ⟨rfl, reached⟩
  refine (expect_mirrors .colon reached.near nofun).bind_unless fun _ p _ q ⟨near, _⟩ => ?_
  refine MirrorsUnless.bind (repeated_unless (fun l p l' q => l = l' ∧ w.Near True k p q)
    (fun _ _ ended => Parser.Ended.inside_ite ended ended) ?_ ⟨rfl, near⟩) (fun _ _ ended => ended)
    fun l p l' q (met : l = l' ∧ w.Near True k p q) =>
      Mirrors.unless (.pure (.inl ⟨by rw [met.1], met.2⟩))
  rintro statements p _ q ⟨rfl, near⟩
  refine Mirrors.unless (inside_bind near (.ite (fun _ => ?_) fun isFalse => absurd rfl isFalse))
  refine lookahead_bind near fun t u facing => ?_
  rw [← facing.test_eq endsClause (by decide)]
  exact .ite (fun _ => .pure (.inl ⟨rfl, near⟩)) fun _ => nextItem_mirrors mates near statements

theorem switchCases_unless : w.AgreesUnless True k (switchCases reader) (switchCases reader') := by
  refine fun p q near => repeated_unless (fun s p s' q => s = s' ∧ w.Near True k p q)
    (fun _ _ ended => ended.inside_ite ended) ?_ ⟨rfl, near⟩
  rintro ⟨cases, defaultFound⟩ p _ q ⟨rfl, near⟩
  have inner : Mirrors .exhausted inside inside p q fun b p' b' q' =>
      (b = true ∧ b' = true) ∧ p' = p ∧ q' = q := by
    rw [← bind_pure inside]
    exact inside_bind near (.pure ⟨⟨rfl, rfl⟩, rfl, rfl⟩)
  have closing : w.Agrees True k (atMark .closeBrace) (atMark .closeBrace) := by
    rw [← bind_pure (atMark .closeBrace)]
    exact .test (fun lexeme => lexeme = .punctuator .closeBrace) (fun _ _ => rfl) fun _ => .pure rfl
  refine inner.bind_unless ?_
  rintro _ _ _ _ ⟨⟨rfl, rfl⟩, rfl, rfl⟩
  refine (closing near).bind_unless ?_
  rintro (_ | _) p _ q ⟨rfl, reached⟩
  · refine (switchClause_unless mates reached.near).bind (fun _ p ended => ?_) ?_
    · exact .ite (fun _ => (complain_never p).imp fun _ _ => False.elim) fun _ => ended
    rintro ⟨test, consequent⟩ p _ q ⟨rfl, near⟩
    exact Mirrors.unless (.ite (fun _ => .of_never (complain_never _)) fun _ =>
      .pure (.inl ⟨rfl, near⟩))
  · exact Mirrors.unless (.pure (.inl ⟨rfl, reached.near⟩))

theorem switchStatement_agrees :
    w.Agrees seen k (switchStatement reader) (switchStatement reader') := by
  refine .expectKeyword (by decide) <| .next (headExpression_agrees mates) fun discriminant =>
    .expect nofun <| .atMark (.pass nofun (.pure rfl)) ?_
  unfold switchBody
  simp only [bind_assoc, pure_bind]
  refine .context fun outer => .changeContext <| .unless (switchCases_unless mates)
    (fun _ _ ended => ?_) fun cases => .changeContext (.expect nofun (.pure rfl))
  exact (ended.stays (changeContext_goes _).goes).bind fun _ _ => closes_ended

theorem catchClause_agrees : w.Agrees seen k (catchClause reader) (catchClause reader') :=
  .expectKeyword (by decide) <| .expect nofun <|
    .atMark (.of (.of_never fun _ => .past fun _ _ => trivial)) <|
      .next pattern_agrees fun name => (refuseRestrictedName_checks name _).next <|
        .expect nofun (.returns (block_agrees mates))

theorem tryStatement_agrees : w.Agrees seen k (tryStatement reader) (tryStatement reader') := by
  have finalizer (body : Node) (handler : Option Node) :
      w.Agrees True k (tryRest reader body handler) (tryRest reader' body handler) :=
    .atKeyword (by decide) (.pass nofun <| .next (.map (block_agrees mates) some) fun _ =>
      .ite (.of_never complain_never) (.pure rfl)) (.ite (.of_never complain_never) (.pure rfl))
  exact .expectKeyword (by decide) <| .next (block_agrees mates) fun body => .atKeyword (by decide)
    (.of (.next (.map (catchClause_agrees mates) some) (finalizer body))) (finalizer body none)

omit mates in
theorem debuggerStatement_concludes : w.Concludes seen k debuggerStatement debuggerStatement :=
  .expectKeyword (by decide) (closed_concludes _)

theorem expressionOrLabel_concludes :
    w.Concludes seen k (expressionOrLabel reader) (expressionOrLabel reader') := by
  refine .next (expression_agrees mates) fun result => ?_
  split
  · refine .atMark (.pass nofun <| .context fun c => .ite (.of_never complain_never) <|
      .changeContext fun p q near => ?_) (closed_concludes _)
    refine (mates.statement near).agree fun body p q reached => ?_
    exact (changeContext_reached reached _).bind fun _ p _ q reached => .pure ⟨rfl, reached⟩
  · exact closed_concludes _

/-! ### Statements -/

theorem keywordStatement_concludes (word : Keyword) (targets : k.targets) :
    w.Concludes seen k (keywordStatement reader word) (keywordStatement reader' word) := by
  unfold keywordStatement
  split
  · exact breakStatement_concludes
  · exact continueStatement_concludes
  · exact debuggerStatement_concludes
  · exact doWhileStatement_concludes mates
  · exact forStatement_concludes mates targets
  · exact (functionDeclaration_agrees mates false).concludes
  · exact ifStatement_concludes mates
  · exact returnStatement_concludes mates
  · exact (switchStatement_agrees mates).concludes
  · exact throwStatement_concludes mates
  · exact (tryStatement_agrees mates).concludes
  · exact variableStatement_concludes mates
  · exact whileStatement_concludes mates
  · exact withStatement_concludes mates
  · exact expressionOrLabel_concludes mates

omit mates in
theorem Relates.fresh {m n : ParseM Node} (parts : w.Concludes seen { k with targets := True } m n) :
    w.Concludes seen k (do freshStatement; m) (do freshStatement; n) :=
  fun _ _ near => .modify_bind ((parts ((near.retargeted (some true)).rebound (some true))).imp
    fun _ _ _ _ met => ⟨met.1, met.2.loosen id fun _ => trivial⟩)

theorem statement_concludes : w.Concludes seen k (statement reader) (statement reader') := by
  refine .ahead (fun lexeme t u left right _ => .of ?_) fun t u word member isWord isName => ?_
  · rw [left, right]
    split
    · exact .of_never fun _ => trivial
    · exact (block_agrees mates).concludes
    · exact .fresh (.returns semicolon_agrees)
    · exact .fresh (.next (expression_agrees mates) fun _ => closed_concludes _)
    · exact .fresh (keywordStatement_concludes mates _ trivial)
    · exact .fresh (expressionOrLabel_concludes mates)
  · -- A word that only strict code reserves starts an expression, as the name does.
    simp only [Keyword.onlyStrict, List.mem_cons, List.not_mem_nil, or_false] at member
    rw [isWord, isName]
    rcases member with rfl | rfl | rfl | rfl | rfl | rfl | rfl <;>
      exact .fresh (expressionOrLabel_concludes mates)

omit mates in
theorem pyimportStatement_concludes :
    w.Upon (.keyword .pyimport) seen True k Eq pyimportStatement pyimportStatement := by
  refine fun p q near looks => .get_bind ?_
  rw [near.settings]
  refine .ite (fun _ => near.upon looks (.pass nofun ?_)) fun _ => .of_never trivial
  exact .next (.returns bindingName_agrees) fun _ => closed_concludes _

theorem listItem_concludes : w.Concludes seen k (listItem reader) (listItem reader') := by
  refine .ahead (fun lexeme t u left right _ => ?_) fun t u word member isWord isName => ?_
  · rw [left, right]
    split
    · exact .of .throw
    · exact .of .throw
    · exact .of (lexicalDeclaration_concludes mates)
    · exact .of (lexicalDeclaration_concludes mates)
    · exact .of (functionDeclaration_agrees mates false).concludes
    · exact .of .throw
    · refine fun p q near looks => .get_bind ?_
      rw [near.settings]
      exact .ite (fun _ => pyimportStatement_concludes near looks) fun _ => statement_concludes mates near
    · exact .of (statement_concludes mates)
  · simp only [Keyword.onlyStrict, List.mem_cons, List.not_mem_nil, or_false] at member
    rw [isWord, isName]
    rcases member with rfl | rfl | rfl | rfl | rfl | rfl | rfl <;>
      exact statement_concludes mates

end

/-! ### Readers -/

theorem readerOf_mates (depth depth' : Nat) : w.Mates (readerOf depth) (readerOf depth') := by
  have reliable (depth : Nat) : Reliable w.left (w.left.size + 1) (readerOf depth) :=
    readerOf_reliable depth _ (by omega)
  induction depth generalizing depth' with
  | zero =>
    exact
      { restores := readerOf_restores 0
        reliable := reliable 0
        assignment := fun _ => .throw
        unary := fun _ => .throw
        leftHandSide := fun _ => .throw
        statement := fun _ => .throw
        listItem := fun _ => .throw }
  | succ depth ih =>
    cases depth' with
    | zero =>
      exact
        { restores := readerOf_restores _
          reliable := reliable _
          assignment := fun _ _ _ _ => rfl
          unary := fun _ _ _ _ => rfl
          leftHandSide := fun _ _ _ _ => rfl
          statement := fun _ _ _ _ => rfl
          listItem := fun _ _ _ _ => rfl }
    | succ depth' =>
      exact
        { restores := readerOf_restores _
          reliable := reliable _
          assignment := fun near => assignmentExpression_agrees (ih depth') near
          unary := fun near => unaryExpression_agrees (ih depth') near
          leftHandSide := fun near => leftHandSide_agrees (ih depth') near
          statement := fun near => statement_concludes (ih depth') near
          listItem := fun near => listItem_concludes (ih depth') near }

end Pairing

end EcmaScript
