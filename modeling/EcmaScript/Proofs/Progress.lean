import EcmaScript.Proofs.Directive
import EcmaScript.Proofs.Steps

/-!
Every rule for expressions, functions and declarations takes a token, keeps the level, and fails in
an acceptable way only. A rule at place `k` reads nested constructs behind its first token, so all
that it needs is a reader that is reliable from the place `k + 1` on.
-/

namespace EcmaScript

/-- What rules may rely on in a reader, from the place `base` on. The callee of `new` is read only
where the keyword `in` is an operator. -/
structure Reliable (src : Source) (base : Nat) (reader : Reader) : Prop where
  reads : ∀ goal, goal ≠ .leftHandSide → ∀ k l, base ≤ k → Goes src k l (reader goal) (k + 1) l
  callee : ∀ k l p c, base ≤ k → p.At src k l → p.context = some c → c.allowIn = true →
    Arrives src (reader .leftHandSide) p (k + 1) l
  directive : ∀ p, p.AtString → Meets (reader .listItem) p
    (fun node _ => ∃ expression, node = .expressionStatement expression) anyFault

namespace Reliable

variable {src : Source} {k : Nat} {l : Int} {reader : Reader}

theorem mono {base base' : Nat} (reliable : Reliable src base reader) (less : base ≤ base') :
    Reliable src base' reader where
  reads goal other k l more := reliable.reads goal other k l (Nat.le_trans less more)
  callee k l p c more := reliable.callee k l p c (Nat.le_trans less more)
  directive := reliable.directive

section

variable (reliable : Reliable src k reader)
include reliable

theorem next : Reliable src (k + 1) reader :=
  reliable.mono (Nat.le_succ k)

theorem assignment : Goes src k l (reader .assignment) (k + 1) l :=
  reliable.reads .assignment nofun k l (Nat.le_refl k)

theorem unary : Goes src k l (reader .unary) (k + 1) l :=
  reliable.reads .unary nofun k l (Nat.le_refl k)

theorem statement : Goes src k l (reader .statement) (k + 1) l :=
  reliable.reads .statement nofun k l (Nat.le_refl k)

theorem listItem : Goes src k l (reader .listItem) (k + 1) l :=
  reliable.reads .listItem nofun k l (Nat.le_refl k)

end

end Reliable

namespace Grammar

open Parse

variable {α β : Type} {src : Source} {k : Nat} {l : Int} {reader : Reader} {p : Parser}
variable {token : Token} {lexeme : Lexeme} {c : Context}

/-! ### Parts without nested rules -/

instance bindingName_goes : Moves bindingName := by
  refine ⟨take_leads fun token p q here _ taken => ?_⟩
  split
  next name lexeme => exact taken.light here (lexeme ▸ ⟨nofun, rfl⟩)
  next word lexeme =>
    have there := taken.light here (lexeme ▸ ⟨nofun, rfl⟩)
    refine Leads.past (fun _ => ?_) q there
    exact .ite (fun _ _ => complainOf_meets _ _) fun _ _ => unexpected_meets token
  next => exact unexpected_meets token

instance bindingIdentifier_goes : Moves bindingIdentifier :=
  ⟨.step fun _ => .stay⟩

instance pattern_goes : Moves pattern := by
  refine ⟨lookahead_leads fun token p here _ => ?_⟩
  split
  · exact bindingName_goes.goes p here
  · exact unsupported_meets _
  · exact unsupported_meets _
  · exact unexpected_meets token

theorem refuseOctal_goes (octal : Option Token) : Goes src k l (refuseOctal octal) k l := by
  cases octal with
  | some token => exact fun _ _ => complainOf_meets _ _
  | none => exact .stay

theorem directives_goes (reliable : Reliable src k reader) : Goes src k l (directives reader) k l := by
  refine .repeated (fun state j less => ?_) _
  obtain ⟨body, octal⟩ := state
  refine inside_ite (fun p here _ => ?_) fun p here _ => here.mono less
  refine lookahead_leads (fun token p here coherent => ?_) p here
  split
  next value isOctal lexeme =>
    have atString : p.AtString := ⟨token, value, isOctal, coherent.lookahead, lexeme⟩
    have item := ((reliable.mono less).listItem p here).and_returns (reliable.directive p atString)
    refine item.bind fun statement q met => ?_
    obtain ⟨there, expression, rfl⟩ := met
    refine .into (.pure (.ite (fun _ => ?_) fun _ => ?_))
    · refine Leads.past (fun _ => ?_) q there
      refine .ite ?_ (.again (Nat.lt_succ_self j))
      refine .bind (.modify fun _ => .rfl) fun _ => ?_
      exact .bind (refuseOctal_goes octal) fun _ => .again (Nat.lt_succ_self j)
    · exact there.mono (by omega)
  next => exact here.mono less

theorem statementsFrom_goes (reliable : Reliable src k reader) (before : List Node) :
    Goes src k l (statementsFrom reader before) k l := by
  refine .repeated (fun statements j less => ?_) _
  refine inside_ite (fun p here _ => ?_) fun p here _ => here.mono less
  refine Leads.fork (.leave less) ?_ p here
  exact .bind (reliable.mono less).listItem fun _ => .again (Nat.lt_succ_self j)

theorem refuseRestricted_goes (f : Formals Token) (message : Option Message) :
    Goes src k l (refuseRestricted f message) k l := by
  refine .fork ?_ .stay
  cases f.firstRestricted with
  | some token => exact fun _ _ => complainOf_meets _ _
  | none =>
    cases f.stricted with
    | some token => exact fun _ _ => complainOf_meets _ _
    | none => exact .stay

theorem bodyThen_goes {body : ParseM Node} {check : ParseM Unit} {k' : Nat} {l' : Int}
    (goes : Goes src k l body k' l') (checks : Goes src k' l' check k' l') :
    Goes src k l (bodyThen body check) k' l' := by
  refine .bind .get fun before => .bind goes fun result => .bind checks fun _ => ?_
  exact .bind (.modify fun _ => .rfl) fun _ => .stay

theorem functionName_goes : Goes src k l functionName (k + 1) l := by
  refine .past fun token => .step fun name => ?_
  refine .fork (.ite ?_ .stay) ?_
  · exact fun _ _ => complainOf_meets _ _
  · exact .ite .stay (.ite .stay .stay)

theorem refuseOctalString_goes (token : Token) : Goes src k l (refuseOctalString token) k l := by
  unfold refuseOctalString
  split
  · refine .fork (fun _ _ => complainOf_meets _ _) ?_
    exact .stay
  · exact .stay

/-- What a test asks for is light, if it asks for no brace, no template and not for the end. -/
theorem light_of {α : Type} {f : Lexeme → Option α} {a : α} (found : f lexeme = some a)
    (atEnd : f .endOfSource = none) (atOpen : f (.punctuator .openBrace) = none)
    (atClose : f (.punctuator .closeBrace) = none)
    (atTemplate : ∀ cooked raw head tail, f (.template cooked raw head tail) = none) : Light lexeme := by
  unfold Light
  cases lexeme with
  | endOfSource => simp [atEnd] at found
  | punctuator mark => cases mark <;> first | exact ⟨nofun, rfl⟩ | simp [atOpen, atClose] at found
  | template cooked raw head tail => simp [atTemplate] at found
  | _ => exact ⟨nofun, rfl⟩

theorem tokenLiteral?_light {literal : Node}
    (found : tokenLiteral? token = some literal) : Light token.lexeme := by
  unfold tokenLiteral? at found
  split at found
  next lexeme => exact lexeme ▸ ⟨nofun, rfl⟩
  next lexeme => exact lexeme ▸ ⟨nofun, rfl⟩
  next => cases found

theorem atPropertyName_goes : Goes src k l atPropertyName k l :=
  .past fun _ => .stay

theorem moreExpressions_goes {expression : ParseM Node}
    (goes : ∀ j, k < j → Goes src j l expression (j + 1) l) (first : Node) :
    Goes src k l (moreExpressions expression first) k l := by
  refine .repeated (fun expressions j less => ?_) _
  refine inside_ite (fun p here _ => ?_) fun p here _ => here.mono less
  refine ifMark ⟨nofun, rfl⟩ ?_ (.leave less) p here
  exact .bind (goes (j + 1) (by omega)) fun _ => .again (by omega)

theorem groupMember_goes (reliable : Reliable src k reader) :
    Goes src k l (groupMember reader) (k + 1) l := by
  refine .fork (fun _ _ => unsupported_meets _) ?_
  exact reliable.assignment.inherited

theorem templateElement_leads {after : α → Parser → Prop} (headRequired : Bool) :
    Leads src k l (templateElement headRequired) after := by
  refine lookahead_leads fun token p here coherent => ?_
  split
  · refine .ite (fun _ => complainOf_meets _ _) fun _ => ?_
    exact (drop_at coherent).bind fun _ _ _ => unsupported_meets _
  · exact complainOf_meets _ _

/-- The cursor goes back to the slash, where no layout stands, and then past the expression. -/
theorem regExpLiteral_at (here : p.At src k l) (coherent : Coherent src p token)
    (same : token.lexeme = .punctuator .slash ∨ token.lexeme = .punctuator .slashAssign) :
    Arrives src regExpLiteral p (k + 1) l := by
  obtain ⟨found, plain⟩ := coherent.slash same
  obtain ⟨braces, opened⟩ := coherent.braces
  have weightless : token.lexeme.weight = 0 := by
    rcases same with same | same <;> rw [same] <;> rfl
  refine .modify_bind ?_
  have apart : p.Apart { p with assignmentTarget := some false, bindingElement := some false } :=
    .rfl
  refine (startMark_at (here.apart apart)).bind fun mark q seen => ?_
  obtain ⟨rfl, -, place⟩ := seen
  have start : mark.index = token.start := place.trans (coherent.apart apart).place_eq
  refine .modify_bind ?_
  have poised : Poised src { p with
      assignmentTarget := some false
      bindingElement := some false
      cursor := { p.cursor with index := mark.index } } := by
    refine ⟨coherent.source, coherent.start, coherent.context, coherent.braces, ?_⟩
    exact start ▸ coherent.place_eq ▸ here.place_le_size
  refine (regExp_meets poised (start ▸ found) (start ▸ plain)).bind fun r q met => ?_
  obtain ⟨ready, moved, kept⟩ := met
  have dropped : Meets drop q (fun _ s => Lexed src q s) (Acceptable src) :=
    (lex_meets ready).bind fun _ _ met => met.2.1
  refine dropped.bind fun _ s lexed => ?_
  refine ⟨lexed.coherent, ?_, ?_⟩
  · have reached := here.place
    have passed := lexed.place
    rw [coherent.place_eq, ← start] at reached
    exact Nat.lt_of_le_of_lt reached (Nat.lt_of_lt_of_le moved passed)
  · have level := coherent.level_eq opened
    rw [here.level, weightless, Int.add_zero] at level
    rw [lexed.level, kept, opened]
    exact level.symm

theorem dropped_at {change : Parser → Parser} {a : α} (here : p.At src k l)
    (coherent : Coherent src p token) (light : Light token.lexeme) (apart : p.Apart (change p)) :
    Arrives src (do modify change; drop; pure a) p (k + 1) l := by
  refine .modify_bind ?_
  exact (drop_light (here.apart apart) (coherent.apart apart) light).bind fun _ _ there => there

theorem refuseOctalString_at (token : Token) :
    Meets (refuseOctalString token) p (fun _ q => q = p) (Acceptable src) := by
  unfold refuseOctalString
  split
  · refine .into (.get_bind (.pure ?_))
    exact .ite (fun _ => complainOf_meets _ _) fun _ => rfl
  · exact rfl

theorem expressionFrom_goes {assignment : ParseM Node}
    (goes : ∀ j, k ≤ j → Goes src j l assignment (j + 1) l) :
    Goes src k l (expressionFrom assignment) (k + 1) l := by
  refine .bind (goes k (Nat.le_refl k)).isolated fun first => .past fun _ => ?_
  refine .ite (.bind (moreExpressions_goes (fun j less => ?_) first) fun _ => .stay) .stay
  exact (goes j (by omega)).isolated

theorem dottedName_goes : Goes src k l dottedName (k + 1) l := by
  refine take_leads fun token p q here _ taken => ?_
  split
  next name found => exact taken.light here (light_of found rfl rfl rfl fun _ _ _ _ => rfl)
  next => exact unexpected_meets token

theorem dottedMember_goes : Goes src k l dottedMember (k + 1) l :=
  .expect rfl fun _ => dottedName_goes.back (Nat.le_succ _)

theorem withIn_goes {part : ParseM α} {k' : Nat} {l' : Int}
    (reads : ∀ q c, q.At src k l → q.context = some c → c.allowIn = true →
      Arrives src part q k' l') : Goes src k l (withIn part) k' l' := by
  refine .past fun outer p here => ?_
  have changes := ((changeContext_goes fun c => { c with allowIn := true }).goes p here).and_returns
    (changeContext_returns (fun c => { c with allowIn := true }) p)
  refine changes.bind fun _ q met => ?_
  obtain ⟨there, c, -, found, -⟩ := met
  refine (reads q _ there found rfl).bind fun result r there => ?_
  exact Leads.past (fun _ => .stay) r there

theorem checkUpdate_at (argument : Node) {message : Message}
    (fits : (Text.formatExactly? [] message.text).isSome) :
    Meets (checkUpdate argument message) p (fun _ q => q = p) (Acceptable src) := by
  refine .into (.get_bind (.pure ?_))
  refine .ite (fun _ => complain_meets fits) fun _ => .get_bind ?_
  exact .ite (fun _ => rfl) fun _ => complain_meets (formats rfl rfl)

theorem checkUnary_goes (operator : UnaryOperator) (argument : Node) :
    Goes src k l (checkUnary operator argument) k l :=
  .past fun _ => .ite (fun _ _ => complain_meets (formats rfl rfl)) .stay

theorem binaryOperator?_at (here : p.At src k l) : Meets binaryOperator? p (fun answer q => q = p ∧
      ∀ operator, answer = some operator → ∃ token, Coherent src p token ∧ Light token.lexeme)
      (Acceptable src) := by
  refine (lookahead_at here).bind fun token q seen => ?_
  obtain ⟨rfl, coherent⟩ := seen
  refine (context_at here).bind fun c q seen => ?_
  obtain ⟨rfl, -⟩ := seen
  refine ⟨rfl, fun operator found => ⟨token, coherent, ?_⟩⟩
  exact light_of (f := (·.binaryOperator? _)) found rfl rfl rfl fun _ _ _ _ => rfl

theorem notePrecedence_at (operator : BinaryOperator) (here : p.At src k l)
    (coherent : Coherent src p token) (light : Light token.lexeme) :
    Meets (notePrecedence operator) p (fun _ q => q.At src k l ∧
      ∃ noted, Coherent src q noted ∧ Light noted.lexeme) (Acceptable src) := by
  have noted := coherent.noted (some operator.precedence)
  refine Meets.modify_iff.mpr ⟨⟨⟨_, noted⟩, here.place, ?_⟩, _, noted, light⟩
  rw [← here.level]
  simp only [Parser.level, coherent.lookahead, Option.map_some, Option.getD_some]

theorem reinterpreted_goes (expression : Node) : Goes src k l (reinterpreted expression) k l := by
  unfold reinterpreted
  split
  · exact .stay
  · exact fun _ _ => unsupported_meets _

theorem assignmentTarget_at (first : Option Token) (operator : AssignmentOperator) (expression : Node) :
    Meets (assignmentTarget first operator expression) p (fun _ q => p.Apart q) (Acceptable src) := by
  refine .get_bind (.ite (fun _ => ?_) fun _ => ?_)
  · refine .into (.get_bind (.pure ?_))
    refine .ite (fun _ => complainOf_meets _ _) fun _ => .ite (fun _ => ?_) fun _ => ?_
    · unfold reinterpreted
      split
      · exact .rfl
      · exact unsupported_meets _
    · exact .rfl
  · exact complain_meets (formats rfl rfl)

theorem refuseRestrictedName_goes (name : Text) {message : Message}
    (fits : (Text.formatExactly? [] message.text).isSome) :
    Goes src k l (refuseRestrictedName name message) k l :=
  .past fun _ => .ite (fun _ _ => complain_meets fits) .stay

theorem declarators_goes {declarator : ParseM Node}
    (goes : ∀ j, k ≤ j → Goes src j l declarator (j + 1) l) :
    Goes src k l (declarators declarator) (k + 1) l := by
  refine .repeated (fun list j less => ?_) _
  refine .bind (goes j less) fun next => ifMark ⟨nofun, rfl⟩ ?_ (.leave (by omega))
  refine inside_ite (fun p here _ => ?_) fun p here _ => ?_
  · exact here.mono (by omega)
  · exact here.mono (by omega)

/-! ### Rules with nested parts -/

variable (reliable : Reliable src (k + 1) reader)
include reliable

theorem initializer_at (here : p.At src k l)
    (coherent : Coherent src p token) (same : token.lexeme = .punctuator .assign) :
    Arrives src (initializer reader) p (k + 1) l := by
  refine (drop_light here coherent (same ▸ ⟨nofun, rfl⟩)).bind fun _ q there => ?_
  exact reliable.assignment.isolated.back (Nat.le_succ _) q there

theorem patternAndDefault_goes : Goes src k l (patternAndDefault reader) (k + 1) l := by
  refine .step fun name => ?_
  refine atMark_ite (fun token p here coherent same => ?_) .stay
  exact (initializer_at reliable.next here coherent same).bind fun _ q there =>
    there.mono (Nat.le_succ _)

theorem parameter_at (here : p.At src k l) (room : Roomy src p.place) :
    Arrives src (parameter reader) p (k + 1) l := by
  refine (lookahead_at here).bind fun token q seen => ?_
  obtain ⟨rfl, coherent⟩ := seen
  refine .ite (fun _ => unsupported_meets _) fun _ => .ite (fun isEnd length ends => ?_) fun _ => ?_
  · exact coherent.place_lt_size_iff.mp (room length ends) isEnd
  · exact (patternAndDefault_goes reliable q here).bind fun _ _ there => there

theorem addParameter_at (blame : Token → β)
    (f : Formals β) (here : p.At src k l) (room : Roomy src p.place) :
    Arrives src (addParameter reader blame f) p (k + 1) l := by
  refine (parameter_at reliable here room).bind fun _ q there => ?_
  exact Leads.past (fun _ => .stay) q there

theorem parameters_goes (blame : Token → β)
    (firstRestricted : Option β) : Goes src k l (parameters reader blame firstRestricted) (k + 1) l := by
  refine .expect rfl fun _ => ?_
  have rest (f : Formals β) : Goes src (k + 1) l (do expect .closeParen; pure f) (k + 1) l :=
    .expect rfl fun _ => .settle (Nat.le_succ _)
  refine .fork (rest _) (.bind (.repeated ?_ _) rest)
  intro f j less
  refine inside_ite (fun p here within => ?_) fun p here _ => here.mono less
  refine (addParameter_at (reliable.mono (by omega)) blame f here (.of_lt within)).bind
    fun f q there => ?_
  refine Leads.fork (.leave (by omega)) ?_ q there
  exact .expect rfl fun _ => .again (by omega)

theorem functionBody_goes : Goes src k l (functionBody reader) (k + 1) l := by
  refine .bind expect_openBrace fun _ => ?_
  refine .bind (directives_goes reliable) fun body => .past fun outer => ?_
  refine .past fun _ => ?_
  refine .bind (statementsFrom_goes reliable body) fun body => .bind expect_closeBrace fun _ => ?_
  exact .past fun _ => .settle (Nat.le_succ _)

theorem functionTail_goes (nameRequired : Bool) :
    Goes src k l (functionTail reader nameRequired) (k + 1) l := by
  have named : Goes src k l (some <$> functionName) k l := functionName_goes.map.back (Nat.le_succ k)
  have rest (name : Option (Text × Option (Token × Message))) :
      Goes src k l (functionRest reader name) (k + 1) l := by
    refine .bind (parameters_goes reliable _ _) fun f => ?_
    refine .bind (bodyThen_goes (functionBody_goes reliable.next) (refuseRestricted_goes f _)) ?_
    exact fun _ => .settle (Nat.le_succ _)
  refine .ite (.bind named rest) ?_
  exact .fork (rest none) (.bind named rest)

theorem functionDeclaration_goes (nameRequired : Bool) :
    Goes src k l (functionDeclaration reader nameRequired) (k + 1) l := by
  refine .step fun _ => ?_
  exact .bind (functionTail_goes reliable.next nameRequired) fun _ => .settle (Nat.le_succ _)

theorem functionExpression_goes : Goes src k l (functionExpression reader) (k + 1) l := by
  refine .step fun _ => ?_
  exact .bind (functionTail_goes reliable.next false) fun _ => .settle (Nat.le_succ _)

theorem methodOf_goes (f : Formals Token) : Goes src k l (methodOf reader f) (k + 1) l := by
  refine .bind (.past fun _ => ?_) fun _ => .stay
  exact bodyThen_goes (functionBody_goes reliable).isolated (refuseRestricted_goes f _)

theorem method_goes : Goes src k l (method reader) (k + 1) l :=
  .bind (parameters_goes reliable _ _) fun f => (methodOf_goes reliable.next f).back (Nat.le_succ _)

/-! ### Properties -/

theorem propertyKey_goes : Goes src k l (propertyKey reader) (k + 1) l := by
  refine take_leads fun token p q here _ taken => ?_
  split
  next literal found =>
    have there := taken.light here (tokenLiteral?_light found)
    exact Leads.bind (refuseOctalString_goes token) (fun _ => .stay) q there
  next =>
    split
    next name found => exact taken.light here (light_of found rfl rfl rfl fun _ _ _ _ => rfl)
    next =>
      refine .ite (fun same => ?_) fun _ => unexpected_meets token
      have there := taken.light here (same ▸ ⟨nofun, rfl⟩)
      refine Leads.bind reliable.assignment.isolated (fun _ => ?_) q there
      exact .expect rfl fun _ => .settle (by omega)

theorem getter_goes : Goes src k l (getter reader) (k + 1) l := by
  refine .past fun _ => .bind (propertyKey_goes reliable) fun _ => ?_
  refine .expect rfl fun _ => .expect rfl fun _ => ?_
  refine .bind (methodOf_goes (reliable.mono (by omega)) _) fun _ => .settle (by omega)

theorem setter_goes : Goes src k l (setter reader) (k + 1) l := by
  refine .past fun _ => .bind (propertyKey_goes reliable) fun _ => ?_
  intro p here
  refine (expect_openParen here).bind fun _ q met => ?_
  obtain ⟨there, room⟩ := met
  refine (atMark_at _ there).bind fun _ r same => ?_
  subst same
  refine .ite (fun _ => ?_) fun _ => ?_
  · exact Leads.past (fun token _ _ => unexpected_meets token) r there
  refine (addParameter_at (reliable.mono (by omega)) id _ there room).bind fun f q there => ?_
  refine Leads.expect rfl (fun _ => ?_) q there
  refine .bind (methodOf_goes (reliable.mono (by omega)) f) fun _ => .settle (by omega)

theorem methodDefinition?_goes (first : Lexeme) (key : Node)
    (computed : Bool) : Goes src k l (methodDefinition? reader first key computed) k l := by
  have rest : Goes src k l (do
      if ← atMark .openParen then do
        let value ← method reader
        pure (some (Node.property .init key computed value true false))
      else pure none) k l :=
    .fork (.bind (method_goes reliable) fun _ => .settle (Nat.le_succ k)) .stay
  have accessor {part : ParseM Node} (goes : Goes src k l part (k + 1) l) :
      Goes src k l (some <$> part) k l := goes.map.back (Nat.le_succ k)
  refine .ite ?_ (.ite ?_ rest)
  · refine .bind atPropertyName_goes fun _ => .ite (.bind (accessor (getter_goes reliable)) ?_) rest
    rintro (_ | _)
    · exact rest
    · exact .stay
  · refine .bind atPropertyName_goes fun _ => .ite (.bind (accessor (setter_goes reliable)) ?_) rest
    rintro (_ | _)
    · exact rest
    · exact .stay

theorem shorthand_goes (key : Node) (computed : Bool) :
    Goes src k l (shorthand reader key computed) k l := by
  refine atMark_ite (fun token p here coherent same => ?_) .stay
  refine (lookahead_at here).bind fun other q seen => ?_
  obtain ⟨rfl, -⟩ := seen
  refine .modify_bind ?_
  have apart : q.Apart { q with coverInitialized := some other } := .rfl
  refine (initializer_at reliable (here.apart apart) (coherent.apart apart) same).bind ?_
  exact fun _ _ there => there.mono (Nat.le_succ k)

theorem property_goes : Goes src k l (property reader) (k + 1) l := by
  refine .past fun token => .past fun computed => ?_
  refine .bind (propertyKey_goes reliable) fun key => ?_
  refine .bind (methodDefinition?_goes reliable.next _ key computed) fun found => ?_
  cases found with
  | some node => exact .stay
  | none =>
    refine ifMark ⟨nofun, rfl⟩ ?_ ?_
    · refine .bind reliable.next.assignment.inherited fun _ => .settle (by omega)
    · split
      · exact shorthand_goes reliable.next key computed
      · exact .past fun token _ _ => unexpected_meets token

theorem objectInitializer_goes : Goes src k l (objectInitializer reader) (k + 1) l := by
  refine .bind expect_openBrace fun _ => ?_
  refine .bind (show Goes src (k + 1) (l + 1) _ (k + 1) (l + 1) from
    .repeated (fun properties j less => ?_) _) fun _ => ?_
  · refine .fork (.leave less) ?_
    refine .bind (property_goes (reliable.mono (by omega))) fun _ => .past fun _ => ?_
    refine .ite (.again (Nat.lt_succ_self j)) (.expect rfl fun _ => ?_)
    exact .again (by omega)
  · exact .bind expect_closeBrace fun _ => .settle (Nat.le_succ _)

/-! ### Primary expressions -/

theorem arrayInitializer_goes : Goes src k l (arrayInitializer reader) (k + 1) l := by
  refine .expect rfl fun _ => ?_
  -- The loop is left only in front of the closing bracket.
  refine .andThen (show Leads src (k + 1) l _
    (fun _ q => q.At src (k + 1) l ∧ Sees src (.punctuator .closeBracket) q) from
      .repeated (fun elements j less => ?_) _) fun elements q met => ?_
  · refine lookahead_leads fun token p here coherent => ?_
    split
    next same => exact ⟨here.mono less, token, coherent, same⟩
    next same =>
      exact (drop_light here coherent (same ▸ ⟨nofun, rfl⟩)).bind fun _ q there => there
    next same =>
      exact (drop_light here coherent (same ▸ ⟨nofun, rfl⟩)).bind fun _ _ _ => unsupported_meets _
    next =>
      refine Leads.bind (reliable.mono less).assignment.inherited (fun element => ?_) p here
      refine .fork (.again (Nat.lt_succ_self j)) ?_
      exact .expect rfl fun _ => .again (by omega)
  · obtain ⟨here, seen⟩ := met
    exact (drop_seen here seen ⟨nofun, rfl⟩).bind fun _ r there => there.mono (Nat.le_succ _)

theorem group_goes : Goes src k l (group reader) (k + 1) l := by
  refine .expect rfl fun _ => ?_
  refine .fork (fun _ _ => unsupported_meets _) ?_
  refine .fork (fun _ _ => unsupported_meets _) ?_
  have rest (expression : Node) : Goes src (k + 2) l (closeGroup expression) (k + 1) l := by
    refine .expect rfl fun _ => .past fun _ => ?_
    refine .ite (fun _ _ => unsupported_meets _) ?_
    exact .bind (.modify fun _ => .rfl) fun _ => .settle (by omega)
  refine .bind (.modify fun _ => .rfl) fun _ => ?_
  refine .bind reliable.assignment.inherited fun first => .past fun _ => ?_
  refine .ite (.bind (.modify fun _ => .rfl) fun _ => ?_) (rest first)
  refine .bind (moreExpressions_goes (fun j less => ?_) first) fun _ => rest _
  exact groupMember_goes (reliable.mono (by omega))

theorem keywordExpression_at
    {word : Keyword} (here : p.At src k l) (coherent : Coherent src p token)
    (same : token.lexeme = .keyword word) :
    Arrives src (keywordExpression reader word) p (k + 1) l := by
  refine .modify_bind ?_
  have apart : p.Apart { p with assignmentTarget := some false, bindingElement := some false } :=
    .rfl
  split
  · exact functionExpression_goes reliable _ (here.apart apart)
  · exact (drop_light (here.apart apart) (coherent.apart apart) (same ▸ ⟨nofun, rfl⟩)).bind
      fun _ _ there => there
  · exact unsupported_meets _
  · exact take_leads (fun token _ _ _ _ _ => unexpected_meets token) _ (here.apart apart)

theorem primary_goes : Goes src k l (primary reader) (k + 1) l := by
  refine lookahead_leads fun token p here coherent => ?_
  split
  next =>
    refine Leads.bind (.modify fun _ => ?_) (fun _ => (group_goes reliable).inherited) p here
    exact .rfl
  next => exact (arrayInitializer_goes reliable).inherited p here
  next => exact (objectInitializer_goes reliable).inherited p here
  next same =>
    exact (drop_light here coherent (same ▸ ⟨nofun, rfl⟩)).bind fun _ _ there => there
  next same =>
    refine .modify_bind ?_
    refine (refuseOctalString_at token).bind fun _ q unchanged => ?_
    subst unchanged
    have apart : p.Apart { p with assignmentTarget := some false, bindingElement := some false } :=
      .rfl
    exact (drop_light (here.apart apart) (coherent.apart apart) (same ▸ ⟨nofun, rfl⟩)).bind
      fun _ _ there => there
  next same =>
    exact dropped_at here coherent (same ▸ ⟨nofun, rfl⟩) .rfl
  next same => exact keywordExpression_at reliable here coherent same
  next same =>
    exact dropped_at here coherent (same ▸ ⟨nofun, rfl⟩) .rfl
  next same =>
    exact dropped_at here coherent (same ▸ ⟨nofun, rfl⟩) .rfl
  next same => exact regExpLiteral_at here coherent (.inl same)
  next same => exact regExpLiteral_at here coherent (.inr same)
  next => exact templateElement_leads true p here
  next => exact take_leads (fun token _ _ _ _ _ => unexpected_meets token) p here
  next => exact take_leads (fun token _ _ _ _ _ => unexpected_meets token) p here

/-! ### Left-hand sides -/

theorem arguments_goes : Goes src k l (arguments reader) (k + 1) l := by
  refine .expect rfl fun _ => ?_
  have rest (args : List Node) : Goes src (k + 1) l (do expect .closeParen; pure args) (k + 1) l :=
    .expect rfl fun _ => .settle (Nat.le_succ _)
  refine .fork (rest []) (.bind (.repeated ?_ _) rest)
  intro args j less
  refine inside_ite (fun p here _ => ?_) fun p here _ => here.mono less
  refine Leads.bind (reliable.mono less).assignment.isolated (fun next => ?_) p here
  refine .fork (.leave (by omega)) ?_
  exact .expect rfl fun _ => .again (by omega)

theorem computedMember_goes : Goes src k l (computedMember reader) (k + 1) l := by
  refine .expect rfl fun _ => ?_
  refine .bind (expressionFrom_goes fun j less => ?_).isolated fun key => ?_
  · exact (reliable.mono less).assignment
  · exact .expect rfl fun _ => .settle (by omega)

theorem newExpression_at (here : p.At src k l)
    (found : p.context = some c) (allowIn : c.allowIn = true) :
    Arrives src (newExpression reader) p (k + 1) l := by
  have word := ((expectKeyword_goes .new).goes p here).and_returns (expectKeyword_keeps .new p)
  refine word.bind fun _ q met => ?_
  obtain ⟨there, agrees⟩ := met
  have callee := reliable.callee (k + 1) l q.opened c (Nat.le_refl _)
    (there.apart .rfl) (agrees.context.trans found) allowIn
  refine (isolated_at callee).bind fun callee r there => ?_
  have rest (args : List Node) : Goes src (k + 2) l (do
      expressionOnly
      pure (Node.newExpression callee args)) (k + 1) l :=
    .past fun _ => .settle (Nat.le_succ _)
  refine Leads.fork (.bind ?_ rest) (rest []) r there
  exact (arguments_goes (reliable.mono (by omega))).back (Nat.le_succ _)

theorem head_at (here : p.At src k l) (found : p.context = some c) (allowIn : c.allowIn = true) :
    Arrives src (head reader) p (k + 1) l := by
  have here' : p.opened.At src k l := here.apart .rfl
  refine (lookahead_at here).bind fun token q seen => ?_
  obtain ⟨rfl, coherent⟩ := seen
  refine (context_at here).bind fun _ r seen => ?_
  obtain ⟨rfl, -⟩ := seen
  refine .ite (fun _ => (drop_at coherent).bind fun _ _ _ => unsupported_meets _) fun _ => ?_
  refine inherited_at (.ite (fun _ => ?_) fun _ => primary_goes reliable _ here')
  exact newExpression_at reliable here' found allowIn

theorem suffixes_goes (allowCall : Bool) (start : Node) :
    Goes src k l (suffixes reader allowCall start) k l := by
  refine .repeated (fun expression j less => ?_) _
  have target : Goes src j l targetOnly j l := .modify fun _ => .rfl
  refine lookahead_leads fun token p here _ => ?_
  split
  next => exact Leads.bind target (fun _ => .bind dottedMember_goes fun _ => .again (by omega)) p here
  next =>
    refine .ite (fun _ => Leads.past (fun _ => ?_) p here) fun _ => ?_
    · exact .bind (arguments_goes (reliable.mono (by omega))) fun _ => .again (by omega)
    · exact here.mono less
  next =>
    refine Leads.bind target (fun _ => ?_) p here
    exact .bind (computedMember_goes (reliable.mono (by omega))) fun _ => .again (by omega)
  next => exact templateElement_leads true p here
  next => exact here.mono less

theorem leftHandSideAllowCall_goes : Goes src k l (leftHandSideAllowCall reader) (k + 1) l := by
  refine withIn_goes fun p c here found allowIn => ?_
  refine (head_at reliable here found allowIn).bind fun start q there => ?_
  exact suffixes_goes reliable.next true start q there

theorem leftHandSide_at (here : p.At src k l)
    (found : p.context = some c) (allowIn : c.allowIn = true) :
    Arrives src (leftHandSide reader) p (k + 1) l := by
  refine (context_at here).bind fun outer q seen => ?_
  obtain ⟨rfl, found'⟩ := seen
  cases Option.some.inj (found.symm.trans found')
  rw [if_pos allowIn]
  refine (head_at reliable here found allowIn).bind fun start r there => ?_
  exact suffixes_goes reliable.next false start r there

/-! ### Operations -/

theorem postfixExpression_goes : Goes src k l (postfixExpression reader) (k + 1) l := by
  refine .bind (leftHandSideAllowCall_goes reliable).inherited fun argument => ?_
  refine .fork .stay ?_
  refine lookahead_leads fun token p here coherent => ?_
  split
  next operator found =>
    refine (checkUpdate_at argument (formats rfl rfl)).bind fun _ q unchanged => ?_
    subst unchanged
    have light := light_of found rfl rfl rfl fun _ _ _ _ => rfl
    refine (dropped_at here coherent light ?_).imp fun _ _ there => ?_
    · exact .rfl
    · exact there.mono (Nat.le_succ _)
  next => exact here

theorem unaryExpression_goes : Goes src k l (unaryExpression reader) (k + 1) l := by
  refine lookahead_leads fun token p here coherent => ?_
  dsimp only
  split
  next operator found =>
    have light := light_of found rfl rfl rfl fun _ _ _ _ => rfl
    refine (drop_light here coherent light).bind fun _ q there => ?_
    refine (reliable.unary.inherited q there).bind fun argument r there => ?_
    refine (checkUpdate_at argument (formats rfl rfl)).bind fun _ s unchanged => ?_
    subst unchanged
    exact Leads.past (fun _ => .settle (Nat.le_succ _)) s there
  next =>
    split
    next operator found =>
      have light := light_of found rfl rfl rfl fun _ _ _ _ => rfl
      refine (drop_light here coherent light).bind fun _ q there => ?_
      refine Leads.bind reliable.unary.inherited (fun argument => ?_) q there
      refine .bind (checkUnary_goes operator argument) fun _ => ?_
      exact .past fun _ => .settle (Nat.le_succ _)
    next => exact postfixExpression_goes reliable p here

theorem binaryExpression_goes : Goes src k l (binaryExpression reader) (k + 1) l := by
  refine .bind (unaryExpression_goes reliable).inherited fun first p here => ?_
  refine (binaryOperator?_at here).bind fun answer q seen => ?_
  obtain ⟨rfl, light⟩ := seen
  cases answer with
  | none => exact here
  | some operator =>
    obtain ⟨token, coherent, light⟩ := light operator rfl
    refine .modify_bind ?_
    have apart : q.Apart { q with assignmentTarget := some false, bindingElement := some false } :=
      .rfl
    have notes := notePrecedence_at operator (here.apart apart) (coherent.apart apart) light
    refine notes.bind fun _ r met => ?_
    obtain ⟨here, noted, coherent, light⟩ := met
    refine (drop_light here coherent light).bind fun _ s there => ?_
    have operand (j : Nat) (less : k < j) : Goes src j l (isolated (unaryExpression reader)) (j + 1) l :=
      (unaryExpression_goes (reliable.mono (by omega))).isolated
    refine Leads.bind (operand (k + 2) (by omega)) (fun second => ?_) s there
    refine .repeated (fun state j less p here => ?_) _
    obtain ⟨stack, right⟩ := state
    refine (binaryOperator?_at here).bind fun answer q seen => ?_
    obtain ⟨rfl, light⟩ := seen
    cases answer with
    | none => exact here.mono (by omega)
    | some operator =>
      obtain ⟨token, coherent, light⟩ := light operator rfl
      refine (drop_light here coherent light).bind fun _ r there => ?_
      exact Leads.bind (operand (j + 1) (by omega)) (fun _ => .again (by omega)) r there

theorem conditionalExpression_goes : Goes src k l (conditionalExpression reader) (k + 1) l := by
  refine .bind (binaryExpression_goes reliable).inherited fun test => ifMark ⟨nofun, rfl⟩ ?_ .stay
  refine .bind (withIn_goes fun p _ here _ _ => reliable.next.assignment.isolated p here)
    fun consequent => ?_
  refine .expect rfl fun _ => ?_
  refine .bind (reliable.mono (by omega)).assignment.isolated fun alternate => ?_
  exact .past fun _ => .settle (by omega)

theorem assignmentExpression_goes : Goes src k l (assignmentExpression reader) (k + 1) l := by
  refine .bind .get fun before => .bind (conditionalExpression_goes reliable) fun expression => ?_
  refine .fork (fun _ _ => unsupported_meets _) ?_
  refine lookahead_leads fun token p here coherent => ?_
  split
  next => exact here
  next operator found =>
    refine (assignmentTarget_at _ operator expression).bind fun left q apart => ?_
    have light := light_of found rfl rfl rfl fun _ _ _ _ => rfl
    refine (drop_light (here.apart apart) (coherent.apart apart) light).bind fun _ r there => ?_
    refine Leads.bind (reliable.mono (by omega)).assignment.isolated (fun right => ?_) r there
    exact .bind (.modify fun _ => .rfl) fun _ => .settle (by omega)

theorem expression_goes : Goes src k l (expression reader) (k + 1) l :=
  expressionFrom_goes fun _ less => assignmentExpression_goes (reliable.mono (by omega))

/-! ### Declarations -/

theorem initializer?_goes : Goes src k l (initializer? reader) k l := by
  refine atMark_ite (fun token p here coherent same => ?_) .stay
  refine Meets.map_iff.mpr ((initializer_at reliable here coherent same).imp fun _ _ there => ?_)
  exact there.mono (Nat.le_succ k)

theorem variableDeclarator_goes : Goes src k l (variableDeclarator reader) (k + 1) l := by
  refine .step fun name => ?_
  refine .bind (refuseRestrictedName_goes name (formats rfl rfl)) fun _ => ?_
  exact .bind (initializer?_goes reliable.next) fun _ => .stay

theorem variableDeclarators_goes : Goes src k l (variableDeclarators reader) (k + 1) l :=
  declarators_goes fun _ less => variableDeclarator_goes (reliable.mono (by omega))

theorem lexicalBinding_goes (constant : Bool) :
    Goes src k l (lexicalBinding reader constant) (k + 1) l := by
  refine .step fun name => ?_
  refine .bind (refuseRestrictedName_goes name (formats rfl rfl)) fun _ => ?_
  refine .ite ?_ (.bind (initializer?_goes reliable.next) fun _ => .stay)
  refine .fork .stay (.expect rfl fun _ => ?_)
  exact .bind (reliable.next.assignment.isolated.map) fun _ => .settle (by omega)

theorem lexicalBindings_goes (constant : Bool) :
    Goes src k l (lexicalBindings reader constant) (k + 1) l :=
  declarators_goes fun _ less => lexicalBinding_goes (reliable.mono (by omega)) constant

end Grammar

end EcmaScript
