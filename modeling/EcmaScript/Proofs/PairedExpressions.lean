import EcmaScript.Proofs.PairedFunctions

/-!
Expressions on both sides of a pairing. The registers of the cover grammar agree from the start of an
expression to its end, so that what is a target on the left is one on the right; what only strict code
refuses is refused on the left first.
-/

namespace EcmaScript.Pairing

open Parse Grammar

variable {α β : Type} {w : Pairing} {k : Ties} {p q : Parser} {t u : Token} {seen last : Prop}
variable {reader reader' : Reader}

/-! ### Properties -/

theorem refuseOctalString_checks (tightens : t.lexeme.Tightens u.lexeme) :
    Checks k (refuseOctalString t) (refuseOctalString u) := by
  unfold refuseOctalString
  rcases tightens with same | ⟨word, -, isWord, isName⟩
  · rw [← same]
    split
    · exact .isStrict fun _ _ stricter => .refuse stricter (fun _ => trivial) .pure
    · exact .pure
  · rw [isWord, isName]
    exact .pure

theorem named_iff (tightens : t.lexeme.Tightens u.lexeme) (name : Text)
    (other : ∀ word ∈ Keyword.onlyStrict, word.text ≠ name) :
    t.lexeme = .identifier name ↔ u.lexeme = .identifier name := by
  rcases tightens with same | ⟨word, member, isWord, isName⟩
  · rw [same]
  · simp [isWord, isName, other word member]

theorem keyword_iff (tightens : t.lexeme.Tightens u.lexeme) (word : Keyword)
    (always : word ∉ Keyword.onlyStrict) : t.lexeme = .keyword word ↔ u.lexeme = .keyword word := by
  rcases tightens with same | ⟨word', member, isWord, isName⟩
  · rw [same]
  · rw [isWord, isName]
    refine ⟨fun same => ?_, nofun⟩
    cases same
    exact absurd member always

section

variable (mates : w.Mates reader reader')
include mates

theorem propertyKey_agrees : w.Agrees seen k (propertyKey reader) (propertyKey reader') := by
  refine fun p q near => (take_mirrors near).bind ?_
  rintro t p' u q' ⟨facing, advanced⟩
  have literal : tokenLiteral? t = tokenLiteral? u := by
    unfold tokenLiteral?
    rcases facing.lexeme with same | ⟨word, -, isWord, isName⟩
    · rw [same, facing.raw]
    · rw [isWord, isName]
  rw [← literal]
  split
  next literal isLiteral =>
    have near := advanced.near fun isSemicolon => by simp [tokenLiteral?, isSemicolon] at isLiteral
    exact near.relate ((refuseOctalString_checks facing.lexeme).next (.pure rfl))
  next =>
    rw [← facing.test_eq Lexeme.name? fun _ _ => rfl]
    split
    next name isName =>
      exact .pure ⟨rfl, .inl (advanced.near fun isSemicolon => by simp [Lexeme.name?, isSemicolon] at isName)⟩
    next =>
      have same := facing.test_eq (fun lexeme => decide (lexeme = .punctuator .openBracket))
        fun _ _ => rfl
      refine .ite_iff (by simpa using same) (fun isBracket => ?_) fun _ => .of_never trivial
      have near := advanced.near (by simp [isBracket])
      exact near.relate (.next (.isolated mates.assignment) fun _ => .expect (by simp) (.pure rfl))

theorem getter_agrees : w.Agrees seen .full (getter reader) (getter reader') :=
  .test (fun lexeme => lexeme = .punctuator .openBracket) (fun _ _ => rfl) fun _ =>
    .next (propertyKey_agrees mates) fun _ => .expect nofun <| .expect nofun <|
      .returns (methodOf_agrees mates ⟨rfl, rfl, rfl, id⟩)

theorem setter_agrees : w.Agrees seen .full (setter reader) (setter reader') := by
  refine .test (fun lexeme => lexeme = .punctuator .openBracket) (fun _ _ => rfl) fun _ =>
    .next (propertyKey_agrees mates) fun key p q near => ?_
  refine (expect_mirrors .openParen near nofun).bind fun _ p _ q ⟨near, fetched⟩ => ?_
  refine atMark_ite near (fun _ => .of_never (.past fun _ _ => trivial)) ?_
  refine (addParameter_reaches mates near fetched ⟨rfl, rfl, rfl, id⟩).bind ?_
  rintro f p g q ⟨mirror, reached⟩
  exact reached.near.relate (.expect nofun (.returns (methodOf_agrees mates mirror)))

theorem orMethod_agrees (key : Node) (computed : Bool) {m n : ParseM (Option Node)}
    (first : w.Agrees seen .full m n) : w.Agrees seen .full (do
        match ← m with
        | some node => pure (some node)
        | none => do
          if ← atMark .openParen then do
            let value ← method reader
            pure (some (.property .init key computed value true false))
          else pure none)
      (do
        match ← n with
        | some node => pure (some node)
        | none => do
          if ← atMark .openParen then do
            let value ← method reader'
            pure (some (.property .init key computed value true false))
          else pure none) := by
  refine .next first fun found => ?_
  cases found with
  | some node => exact .pure rfl
  | none => exact .atMark (.of (.returns (method_agrees mates))) (.pure rfl)

theorem methodDefinition?_agrees (key : Node) (computed : Bool)
    (tightens : t.lexeme.Tightens u.lexeme) : w.Agrees True .full
      (methodDefinition? reader t.lexeme key computed)
      (methodDefinition? reader' u.lexeme key computed) := by
  have other := orMethod_agrees (m := pure none) (n := pure none) mates key computed (.pure rfl)
  unfold methodDefinition?
  refine .ite_iff (named_iff tightens _ (by decide)) ?_
    (.ite_iff (named_iff tightens _ (by decide)) ?_ other)
  · exact .test Lexeme.startsPropertyName (by decide) fun _ =>
      .ite (orMethod_agrees mates key computed ((getter_agrees mates).map some)) other
  · exact .test Lexeme.startsPropertyName (by decide) fun _ =>
      .ite (orMethod_agrees mates key computed ((setter_agrees mates).map some)) other

theorem shorthand_agrees (key : Node) (computed : Bool) :
    w.Agrees True .full (shorthand reader key computed) (shorthand reader' key computed) := by
  refine .atMark (fun p q near looks => lookahead_bind near fun t u _ => .modify_bind ?_) (.pure rfl)
  refine Upon.next (initializer_agrees mates) (fun _ => .pure rfl) (near.still
    ⟨rfl, rfl, rfl, rfl, id, id⟩ ⟨rfl, rfl, rfl, rfl, id, id⟩ ?_) looks
  exact ⟨near.context, near.settings, near.strict, fun _ _ => rfl, near.targets⟩

theorem property_agrees : w.Agrees seen .full (property reader) (property reader') := by
  refine fun p q near => lookahead_bind near fun t u facing => ?_
  refine Relates.test (fun lexeme => lexeme = .punctuator .openBracket) (fun _ _ => rfl)
    (fun computed => .next (propertyKey_agrees mates) fun key =>
      .next (methodDefinition?_agrees mates key computed facing.lexeme) fun found => ?_) near
  cases found with
  | some node => exact .pure rfl
  | none =>
    refine .atMark (.pass nofun (.returns (.inherited mates.assignment))) ?_
    rcases facing.lexeme with same | ⟨word, -, isWord, -⟩
    · rw [← same]
      split
      · exact shorthand_agrees mates key computed
      · exact .of_never fun _ => .past fun _ _ => trivial
    · rw [isWord]
      exact .of_never fun _ => .past fun _ _ => trivial

theorem objectInitializer_agrees :
    w.Agrees seen .full (objectInitializer reader) (objectInitializer reader') := by
  refine .expect nofun <| .next (.loop fun properties => ?_) fun _ => .expect nofun (.pure rfl)
  exact .atMark (.of (.pure rfl)) <| .next (property_agrees mates) fun _ =>
    .atMark (.of (.pure rfl)) (.expect nofun (.pure rfl))

/-! ### Primary expressions -/

theorem elements_mirrors (near : w.Near True .full p q) :
    Mirrors .exhausted (repeated (nextElement reader) []) (repeated (nextElement reader') []) p q
      fun l p l' q => (l = l' ∧ w.Near True .full p q) ∧ p.Looks (.punctuator .closeBracket) := by
  refine repeated_mirrors (fun l p l' q => l = l' ∧ w.Near True .full p q) ?_ ⟨rfl, near⟩
  rintro elements p _ q ⟨rfl, near⟩
  refine lookahead_bind near fun t u facing => ?_
  have element : Mirrors .exhausted (do
        let element ← inherited (reader .assignment)
        if ← atMark .closeBracket then pure () else expect .comma
        pure (.inl (elements ++ [some element]) : List (Option Node) ⊕ List (Option Node)))
      (do
        let element ← inherited (reader' .assignment)
        if ← atMark .closeBracket then pure () else expect .comma
        pure (.inl (elements ++ [some element]))) p q
      (Mirrors.Onward (fun l p l' q => l = l' ∧ w.Near True .full p q) fun l p l' q =>
        (l = l' ∧ w.Near True .full p q) ∧ p.Looks (.punctuator .closeBracket)) := by
    refine (Relates.inherited mates.assignment near).agree fun element p q reached => ?_
    refine atMark_ite reached.near (fun _ => .pure ⟨rfl, reached.near⟩) ?_
    exact (expect_mirrors .comma reached.near nofun).bind fun _ _ _ _ met => .pure ⟨rfl, met.1⟩
  rcases facing.lexeme with same | ⟨word, -, isWord, isName⟩
  · rw [← same]
    split
    next isMark => exact .pure ⟨⟨rfl, near⟩, t, facing.left.lookahead, isMark⟩
    next isMark =>
      refine (drop_mirrors near ⟨t, facing.left.lookahead, isMark⟩).bind fun _ p _ q met => ?_
      exact .pure ⟨rfl, (met.2 nofun).1⟩
    next => exact .of_never (.past fun _ _ => trivial)
    next => exact element
  · rw [isWord, isName]
    exact element

theorem arrayInitializer_agrees :
    w.Agrees seen .full (arrayInitializer reader) (arrayInitializer reader') := by
  refine .expect nofun fun p q near => (elements_mirrors mates near).bind ?_
  rintro elements p _ q ⟨⟨rfl, near⟩, looks⟩
  exact (drop_mirrors near looks).bind fun _ _ _ _ met => .pure ⟨rfl, .inl (met.2 nofun).1⟩

omit mates in
theorem moreExpressions_agrees {part part' : ParseM Node} (first : Node)
    (parts : w.Agrees True k part part') :
    w.Agrees True k (moreExpressions part first) (moreExpressions part' first) :=
  .loop fun _ => .inside <| .atMark (.pass nofun (.returns parts)) (.pure rfl)

theorem group_agrees : w.Agrees seen .full (group reader) (group reader') := by
  have closing (expression : Node) :
      w.Agrees True .full (closeGroup expression) (closeGroup expression) :=
    .expect nofun <| .atMark (.of .throw) (.rebind (.pure rfl))
  have member : w.Agrees True .full (groupMember reader) (groupMember reader') :=
    .atMark (.of .throw) (.inherited mates.assignment)
  refine .expect nofun <| .atMark (.of .throw) <| .atMark (.of .throw) <| .rebind <|
    .next (.inherited mates.assignment) fun first => .atMark (fun p q near _ => ?_) (closing first)
  refine .modify_bind ?_
  exact Relates.next (moreExpressions_agrees first member) (fun expressions =>
    closing (.sequenceExpression expressions)) (near.retargeted (some false))

end

theorem regExp_spent {after : RegExp → Parser → Prop} {src : Source} (source : p.source = some src)
    (reads : Meets (Layout.skipAll src) { p.cursor with lineBreak := some false }
      (fun _ between => Meets (RegExp.scan src) between
        (fun r cursor => after r { p with scanning := some true, lookahead := none, cursor })
        (only .exhausted)) (only .exhausted)) : Meets regExp p after (only .exhausted) := by
  exact (regExp_iff source).mpr (spends (reads.imp fun _ _ reads => spends reads))

theorem solid_slash {i j : Nat} {fresh : Bool} (behind : w.leftBase ≤ i)
    (place : i + w.rightBase = j + w.leftBase) (here : w.left[i]? = some 0x2F)
    (plain : Layout.NoComment w.left i) : Layout.Solid w.right fresh j := by
  refine .of_slash (w.chars behind place here) fun _ => ?_
  obtain ⟨ch, next, notSlash, notStar⟩ := plain here
  exact ⟨ch, w.chars (by omega) (by omega) next, notSlash, notStar⟩

theorem regExp_mirrors (alike : Alike k p q) (poised : Poised w.left p)
    (source : q.source = some w.right) (aligned : w.Aligned p.cursor q.cursor)
    (here : w.left[p.cursor.index]? = some 0x2F) (plain : Layout.NoComment w.left p.cursor.index)
    (early : p.cursor.index ≤ w.length) : Mirrors .exhausted regExp regExp p q fun r p' r' q' =>
      (r.pattern = r'.pattern ∧ r.flags = r'.flags ∧ r.raw = r'.raw) ∧
        (Alike k p' q' ∧ Poised w.left p' ∧ q'.source = some w.right) ∧
        w.Aligned p'.cursor q'.cursor ∧ p'.cursor.index ≤ w.length ∧
        (p'.cursor.index = 0 ↔ q'.cursor.index = 0) := by
  intro r p' run
  obtain ⟨poised', moved, -⟩ := (regExp_meets poised here plain).of_ok run
  obtain ⟨between, after, layout, scans, rfl⟩ := (regExp_ok_iff poised.source).mp run
  have stays : Meets (Layout.skipAll w.left) { p.cursor with lineBreak := some false }
      (fun _ c => c = { p.cursor with lineBreak := some false }) anyFault :=
    Layout.skipAll_solid (.of_slash here plain) rfl
  obtain rfl : between = { p.cursor with lineBreak := some false } := by
    have met := stays.of_ok layout
    exact met
  refine regExp_spent source
    (Layout.skipAll_solid (solid_slash aligned.behind aligned.index here plain) ?_)
  have noted : w.Aligned { p.cursor with lineBreak := some false }
      { q.cursor with lineBreak := some false } := ⟨aligned.behind, aligned.index, aligned.braces⟩
  refine (Window.regExp_follows noted here early r after scans).imp ?_
  rintro r' after' ⟨pattern, flags, raw, aligned', early'⟩
  refine ⟨⟨pattern, flags, raw⟩, ⟨?_, poised', source⟩, aligned', early', ?_⟩
  · exact ⟨alike.context, alike.settings, alike.strict, alike.cover, alike.targets⟩
  · have index := aligned'.index
    have before := aligned.index
    have moved : p.cursor.index < after.index := moved
    show after.index = 0 ↔ after'.index = 0
    omega

theorem regExpLiteral_agrees {mark : Punctuator} (slash : mark = .slash ∨ mark = .slashAssign) :
    w.Upon (.punctuator mark) seen False .full Eq regExpLiteral regExpLiteral := by
  refine .expressionOnly fun p q near looks => ?_
  obtain ⟨t, u, facing⟩ := near.tokens
  obtain ⟨token, looked, isMark⟩ := looks
  obtain rfl : t = token := Option.some.inj (facing.left.lookahead.symm.trans looked)
  have isSlash : t.lexeme = .punctuator .slash ∨ t.lexeme = .punctuator .slashAssign := by
    rw [isMark]
    exact slash.imp (congrArg _) (congrArg _)
  obtain ⟨here, plain⟩ := facing.left.slash isSlash
  have moved := facing.left.moved facing.notEnd
  have early : t.start ≤ w.length := by
    rcases facing.within with within | ⟨isSemicolon, -⟩
    · omega
    · rcases isSlash with isMark | isMark <;> cases isSemicolon.symm.trans isMark
  refine startMark_bind facing fun mark mark' index index' => .modify_bind ?_
  rw [index, index']
  -- Both cursors go back to the slash.
  have alike : Alike .full { p with cursor := { p.cursor with index := t.start } }
      { q with cursor := { q.cursor with index := u.start } } :=
    ⟨near.context, near.settings, near.strict, near.cover, near.targets⟩
  have poised : Poised w.left { p with cursor := { p.cursor with index := t.start } } :=
    { facing.left with bound := Nat.le_of_lt facing.start_lt }
  have aligned : w.Aligned { p.cursor with index := t.start } { q.cursor with index := u.start } :=
    ⟨facing.behind, facing.start, facing.aligned.braces⟩
  refine (regExp_mirrors alike poised facing.source aligned here plain early).bind ?_
  rintro r p' r' q' ⟨⟨pattern, flags, raw⟩, ⟨alike, poised, source⟩, aligned, early, begun⟩
  have dropped : Mirrors .exhausted drop drop p' q' fun _ p _ q => w.Near True .full p q :=
    (lex_aligned alike poised source aligned early begun).bind fun _ _ _ _ met => .pure met.2.2.1
  refine dropped.bind fun _ p _ q near => ?_
  rw [pattern, flags, raw]
  exact .pure ⟨rfl, near.reached⟩

theorem keywordExpression_agrees (mates : w.Mates reader reader') {word : Keyword} :
    w.Upon (.keyword word) seen False .full Eq (keywordExpression reader word)
      (keywordExpression reader' word) := by
  refine .expressionOnly ?_
  split
  · exact .of (functionExpression_agrees mates)
  · exact .pass nofun (.pure rfl)
  · exact .of .throw
  · exact .of (.of_never fun _ => .past fun _ _ => trivial)

theorem keywordExpression_refuses {word : Keyword}
    (other : word ≠ .function ∧ word ≠ .this ∧ word ≠ .class_) :
    Meets (keywordExpression reader word) p (fun _ _ => False) anyFault := by
  refine .past fun _ _ => ?_
  split
  · exact absurd rfl other.1
  · exact absurd rfl other.2.1
  · exact absurd rfl other.2.2
  · exact .past fun _ _ => trivial

theorem keywordExpression_never {word : Keyword} (member : word ∈ Keyword.onlyStrict) :
    Meets (keywordExpression reader word) p (fun _ _ => False) anyFault := by
  apply keywordExpression_refuses
  revert word
  decide

theorem primary_agrees (mates : w.Mates reader reader') :
    w.Agrees seen .full (primary reader) (primary reader') := by
  refine .ahead (fun lexeme t u left right raw => ?_) fun t u word member isWord _ => ?_
  · have octal := refuseOctalString_checks (k := .full) (.inl (left.trans right.symm))
    rw [left, right, ← raw]
    clear left right
    split
    · exact .of (.rebind (.inherited (group_agrees mates)))
    · exact .of (.inherited (arrayInitializer_agrees mates))
    · exact .of (.inherited (objectInitializer_agrees mates))
    · exact .pass nofun (.pure rfl)
    · exact .expressionOnly (octal.upon (.pass nofun (.pure rfl)))
    · exact .expressionOnly (.pass nofun (.pure rfl))
    · exact keywordExpression_agrees mates
    · exact .rebind (.pass nofun (.pure rfl))
    · exact .expressionOnly (.pass nofun (.pure rfl))
    · exact regExpLiteral_agrees (.inl rfl)
    · exact regExpLiteral_agrees (.inr rfl)
    · exact .of (.of_never fun _ => templateLiteral_fails)
    · exact .of (.of_never fun _ => .past fun _ _ => trivial)
    · exact .of (.of_never fun _ => .past fun _ _ => trivial)
  · rw [isWord]
    exact .of_never fun _ => keywordExpression_never member

/-! ### Members and calls -/

theorem withIn_agrees {part part' : ParseM α} (parts : w.Agrees seen k part part') :
    w.Agrees seen k (withIn part) (withIn part') :=
  .context fun _ => .inContext parts

theorem expressionFrom_agrees {part part' : ParseM Node}
    (parts : ∀ seen, w.Agrees seen .full part part') :
    w.Agrees seen k (expressionFrom part) (expressionFrom part') :=
  .next (.isolated (parts seen)) fun first =>
    .atMark (.of (.returns (moreExpressions_agrees first (.isolated (parts True))))) (.pure rfl)

section

variable (mates : w.Mates reader reader')
include mates

theorem arguments_agrees : w.Agrees seen k (arguments reader) (arguments reader') := by
  have closing (args : List Node) : w.Agrees True k (do expect .closeParen; pure args)
      (do expect .closeParen; pure args) :=
    .expect nofun (.pure rfl)
  refine .expect nofun <| .atMark (.of (closing [])) <| .next (.loop fun _ => ?_) closing
  exact .inside <| .next (.isolated mates.assignment) fun _ =>
    .atMark (.of (.pure rfl)) (.expect nofun (.pure rfl))

omit mates in
theorem dottedMember_agrees : w.Agrees seen k dottedMember dottedMember := by
  refine .expect nofun fun p q near => (take_mirrors near).bind ?_
  rintro t p u q ⟨facing, advanced⟩
  rw [← facing.test_eq Lexeme.name? fun _ _ => rfl]
  split
  next name isName =>
    exact .pure ⟨rfl, .inl (advanced.near fun isSemicolon => by simp [Lexeme.name?, isSemicolon] at isName)⟩
  next => exact .of_never trivial

theorem computedMember_agrees :
    w.Agrees seen k (computedMember reader) (computedMember reader') :=
  .expect nofun <| .next (.isolated (expressionFrom_agrees fun _ => mates.assignment)) fun _ =>
    .expect nofun (.pure rfl)

theorem newExpression_agrees :
    w.Agrees seen .full (newExpression reader) (newExpression reader') := by
  have made (callee : Node) (args : List Node) : w.Agrees True .full
      (do expressionOnly; pure (Node.newExpression callee args))
      (do expressionOnly; pure (Node.newExpression callee args)) :=
    .expressionOnly (.pure rfl)
  exact .expectKeyword (by decide) <| .next (.isolated mates.leftHandSide) fun callee =>
    .atMark (.of (.next (arguments_agrees mates) (made callee))) (made callee [])

theorem head_agrees : w.Agrees seen .full (head reader) (head reader') := by
  refine fun p q near => lookahead_bind near fun t u facing => near.relate (.context fun c => ?_)
  have super := keyword_iff facing.lexeme .super (by decide)
  refine .refuse (by simp [super]) (fun _ => .past fun _ _ => trivial) (.inherited ?_)
  exact .ite_iff (keyword_iff facing.lexeme .new (by decide)) (newExpression_agrees mates)
    (primary_agrees mates)

theorem suffix_agrees (allowCall : Bool) (expression : Node) :
    w.Agrees True .full (suffix reader allowCall expression) (suffix reader' allowCall expression) := by
  refine .ahead (fun lexeme t u left right _ => .of ?_) fun t u word _ isWord isName => ?_
  · rw [left, right]
    split
    · exact fun p q near => .modify_bind (Relates.returns dottedMember_agrees
        ((near.retargeted (some true)).rebound (some false)))
    · exact .ite (.expressionOnly (.returns (arguments_agrees mates))) (.pure rfl)
    · exact fun p q near => .modify_bind (Relates.returns (computedMember_agrees mates)
        ((near.retargeted (some true)).rebound (some false)))
    · exact .of_never fun _ => templateLiteral_fails
    · exact .pure rfl
  · rw [isWord, isName]
    exact .pure rfl

theorem leftHandSideAllowCall_agrees :
    w.Agrees seen .full (leftHandSideAllowCall reader) (leftHandSideAllowCall reader') :=
  withIn_agrees (.next (head_agrees mates) fun _ => .loop (suffix_agrees mates true))

theorem leftHandSide_agrees : w.Agrees seen .full (leftHandSide reader) (leftHandSide reader') :=
  .context fun _ => .ite (.next (head_agrees mates) fun _ => .loop (suffix_agrees mates false)) .throw

end

/-! ### Operations -/

theorem checkUpdate_checks (argument : Node) (message : Message) :
    Checks .full (checkUpdate argument message) (checkUpdate argument message) := by
  refine .of_strict fun p q alike => .get_bind ?_
  rw [alike.targets trivial]
  exact .ite (fun _ => .pure ⟨rfl, rfl⟩) fun _ => .of_never (complain_never _)

theorem checkUnary_checks (operator : UnaryOperator) (argument : Node) :
    Checks k (checkUnary operator argument) (checkUnary operator argument) := by
  refine .isStrict fun _ _ stricter => .refuse ?_ complain_never .pure
  simp only [Bool.and_eq_true]
  exact And.imp_left (And.imp_left stricter)

section

variable (mates : w.Mates reader reader')
include mates

theorem postfixExpression_agrees :
    w.Agrees seen .full (postfixExpression reader) (postfixExpression reader') := by
  refine .next (.inherited (leftHandSideAllowCall_agrees mates)) fun argument =>
    .afterLineBreak fun _ => .ite (.pure rfl) <|
      .tests Lexeme.updateOperator? (fun _ _ => rfl) fun t u same => ?_
  rw [← same]
  split
  next operator isOperator =>
    refine (checkUpdate_checks argument _).upon (.expressionOnly (.pass (fun isSemicolon => ?_) (.pure rfl)))
    rw [isSemicolon] at isOperator
    cases isOperator
  next => exact .of (.pure rfl)

theorem unaryExpression_agrees :
    w.Agrees seen .full (unaryExpression reader) (unaryExpression reader') := by
  refine .tests (fun lexeme => (lexeme.updateOperator?, lexeme.unaryOperator?)) (by decide)
    fun t u same => ?_
  obtain ⟨update, unary⟩ := Prod.mk.inj same
  dsimp only
  rw [← update, ← unary]
  split
  next operator isOperator =>
    refine .pass (fun isSemicolon => ?_) <| .next (.inherited mates.unary) fun argument =>
      (checkUpdate_checks argument _).next (.expressionOnly (.pure rfl))
    rw [isSemicolon] at isOperator
    cases isOperator
  next =>
    split
    next operator isOperator =>
      refine .pass (fun isSemicolon => ?_) <| .next (.inherited mates.unary) fun argument =>
        (checkUnary_checks operator argument).next (.expressionOnly (.pure rfl))
      rw [isSemicolon] at isOperator
      cases isOperator
    next => exact .of (postfixExpression_agrees mates)

omit mates in
theorem Relates.binaryOperator? {γ δ : Type} {later : γ → δ → Prop}
    {f : Option BinaryOperator → ParseM γ} {g : Option BinaryOperator → ParseM δ}
    (none : w.Relates seen last k later (f none) (g none))
    (some : ∀ operator lexeme, lexeme ≠ .punctuator .semicolon →
      w.Upon lexeme seen last k later (f (some operator)) (g (some operator))) :
    w.Relates seen last k later (binaryOperator? >>= f) (binaryOperator? >>= g) := by
  unfold Grammar.binaryOperator?
  simp only [bind_assoc, pure_bind]
  refine fun p q near => lookahead_bind near fun t u facing => context_bind near.toAlike fun c => ?_
  rw [← facing.test_eq (fun lexeme => lexeme.binaryOperator? c.allowIn) (by cases c.allowIn <;> decide)]
  cases found : t.lexeme.binaryOperator? c.allowIn with
  | none => exact none near
  | some operator =>
    refine some operator t.lexeme (fun isSemicolon => ?_) near ⟨t, facing.left.lookahead, rfl⟩
    rw [isSemicolon] at found
    cases found

omit mates in
theorem Upon.notePrecedence {γ δ : Type} {later : γ → δ → Prop} {lexeme : Lexeme} {f : Unit → ParseM γ}
    {g : Unit → ParseM δ} {operator : BinaryOperator}
    (next : w.Upon lexeme seen last k later (f ()) (g ())) :
    w.Upon lexeme seen last k later (notePrecedence operator >>= f) (notePrecedence operator >>= g) := by
  rintro p q near ⟨token, looked, isSuch⟩
  refine .modify_bind (next ?_ ⟨{ token with precedence := some operator.precedence }, by rw [looked]; rfl, isSuch⟩)
  obtain ⟨t, u, facing⟩ := near.tokens
  refine ⟨⟨near.context, near.settings, near.strict, near.cover, near.targets⟩,
    { t with precedence := some operator.precedence },
    { u with precedence := some operator.precedence }, ?_⟩
  exact { facing with
    left := facing.left.noted _
    lookahead := by rw [facing.lookahead]; rfl }

theorem binaryExpression_agrees :
    w.Agrees seen .full (binaryExpression reader) (binaryExpression reader') := by
  refine .next (.inherited (unaryExpression_agrees mates)) fun first =>
    .binaryOperator? (.pure rfl) fun operator lexeme other => .expressionOnly <| .notePrecedence <|
      .pass other <| .next (.isolated (unaryExpression_agrees mates)) fun second =>
        .loop fun (stack, right) => ?_
  exact .binaryOperator? (.pure rfl) fun _ _ other =>
    .pass other (.returns (.isolated (unaryExpression_agrees mates)))

theorem conditionalExpression_agrees :
    w.Agrees seen .full (conditionalExpression reader) (conditionalExpression reader') :=
  .next (.inherited (binaryExpression_agrees mates)) fun _ =>
    .atMark (.pass nofun <| .next (withIn_agrees (.isolated mates.assignment)) fun _ =>
      .expect nofun <| .next (.isolated mates.assignment) fun _ => .expressionOnly (.pure rfl))
      (.pure rfl)

omit mates in
theorem assignmentTarget_mirrors (first first' : Option Token) (operator : AssignmentOperator)
    (expression : Node) (near : w.Near seen .full p q) :
    Mirrors .exhausted (assignmentTarget first operator expression)
      (assignmentTarget first' operator expression) p q fun left p' left' q' =>
        (left = left' ∧ w.Near seen .full p' q') ∧
          ∀ {lexeme : Lexeme}, p.Looks lexeme → p'.Looks lexeme := by
  refine .get_bind ?_
  rw [near.targets trivial]
  refine .ite (fun _ => isStrict_bind near fun stricter => ?_) fun _ => .of_never (complain_never _)
  by_cases refused : (p.isStrict && expression.isRestrictedName) = true
  · rw [if_pos refused]
    exact .of_never trivial
  · have refused' : ¬ (q.isStrict && expression.isRestrictedName) = true := by
      simp only [Bool.and_eq_true] at refused ⊢
      exact mt (And.imp_left stricter) refused
    rw [if_neg refused, if_neg refused']
    refine .ite (fun _ => ?_) fun _ => .modify_bind (.pure ⟨⟨rfl, ?_⟩, id⟩)
    · unfold reinterpreted
      split
      · exact .pure ⟨⟨rfl, near⟩, id⟩
      · exact .of_never trivial
    · exact (near.retargeted (some false)).rebound (some false)

theorem assignmentExpression_agrees :
    w.Agrees seen .full (assignmentExpression reader) (assignmentExpression reader') := by
  refine fun p q near => .get_bind (near.relate (.next (conditionalExpression_agrees mates)
    fun expression => .atMark (.of .throw) (.tests Lexeme.assignmentOperator? (fun _ _ => rfl)
      fun t u same => ?_)))
  rw [← same]
  split
  next => exact .of (.pure rfl)
  next operator isOperator =>
    intro p' q' near looks
    refine (assignmentTarget_mirrors p.lookahead q.lookahead operator expression near).bind ?_
    rintro left p _ q ⟨⟨rfl, near⟩, keeps⟩
    have other : t.lexeme ≠ .punctuator .semicolon := fun isSemicolon => by
      rw [isSemicolon] at isOperator
      cases isOperator
    refine (drop_mirrors near (keeps looks)).bind fun _ p _ q met => (met.2 other).1.relate ?_
    refine .next (.isolated mates.assignment) fun right p q near => .modify_bind (.pure ⟨rfl, .inl ?_⟩)
    exact near.still ⟨rfl, rfl, rfl, rfl, id, id⟩ ⟨rfl, rfl, rfl, rfl, id, id⟩
      ⟨near.context, near.settings, near.strict, fun _ => id, near.targets⟩

theorem expression_agrees : w.Agrees seen k (expression reader) (expression reader') :=
  expressionFrom_agrees fun _ => assignmentExpression_agrees mates

end

end EcmaScript.Pairing
