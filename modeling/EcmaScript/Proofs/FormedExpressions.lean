import EcmaScript.Proofs.PairedFunctions
import EcmaScript.Proofs.Stances

/-!
Expressions are formed. What a rule for expressions reads is formed as far as the register of the cover
grammar says that it is settled, and it passes for a target where the other register says so; whatever
reads the expression may ask the registers. Functions are read here, too: their names and parameters are
judged by notes that are made before their bodies are known.
-/

namespace EcmaScript

variable {r : Regime} {σ τ υ : Stance}

/-- What a stance says of the expression that was read last. -/
structure Expressed (r : Regime) (n : Node) (τ : Stance) : Prop where
  formed : Formed r τ.settled .expression n
  passes : τ.target → n.passesForTarget = true

theorem Expressed.mono {n : Node} (expressed : Expressed r n τ) (below : υ ≤ τ) : Expressed r n υ :=
  ⟨expressed.formed.mono below.2, expressed.passes ∘ below.1⟩

/-- A rule for expressions. -/
def Expresses (r : Regime) (m : ParseM Node) : Prop :=
  ∀ σ, Yields r σ m (Expressed r)

namespace Expresses

variable {m : ParseM Node}

theorem isolated (reads : Expresses r m) : Steady r (Parse.isolated m) (Proper r .expression) :=
  .isolated ((reads _).imp fun _ _ expressed settled => expressed.formed.mono fun _ => settled)

theorem inherited (reads : Expresses r m) :
    Yields r σ (Parse.inherited m) fun n τ => Expressed r n τ ∧ τ ≤ σ := by
  apply (Yields.inherited (reads _)).imp
  rintro n υ ⟨⟨τ, expressed, below⟩, smaller⟩
  exact ⟨expressed.mono below, smaller⟩

end Expresses

namespace Grammar

open Parse

structure Trusted (r : Regime) (reader : Reader) : Prop where
  assignment : Expresses r (reader .assignment)
  unary : Expresses r (reader .unary)
  leftHandSide : Expresses r (reader .leftHandSide)
  statement : Loose r (reader .statement) (Proper r .statement)
  listItem : Loose r (reader .listItem) (Proper r .statement)

variable {reader : Reader}

/-! ### Parts without nested rules -/

variable {names : List Text}

namespace Formals

variable {β : Type}

/-- The parameters have these names, and what strict code forbids among them was noted. -/
structure Records (r : Regime) (f : Formals β) (names : List Text) : Prop where
  params : f.params = names.map .identifier
  defaults : ∀ n, some n ∈ f.defaults → Proper r .expression n
  lawful : r.strict → ¬ f.Refused → f.names = names ∧ LawfulNames none names

theorem Records.empty (firstRestricted : Option β) : ({ firstRestricted } : Formals β).Records r [] :=
  ⟨rfl, nofun, fun _ _ => ⟨rfl, nofun, nofun, List.nodup_nil⟩⟩

theorem Records.add {f : Formals β} (records : f.Records r names) (strict : Bool)
    (blame : β) (name : Text) {default : Option Node} (formed : ∀ n ∈ default, Proper r .expression n) :
    ((f.declare strict blame name).add name default).Records r (names ++ [name]) := by
  obtain ⟨params, defaults⟩ := f.declare_params strict blame name
  constructor
  · simp [Formals.add, params, records.params]
  · intro n member
    rcases List.mem_append.mp member with before | last
    · rw [defaults] at before
      exact records.defaults n before
    · exact formed n (List.mem_singleton.mp last).symm
  · intro strictly blameless
    -- Had the new name been restricted or there before, this would have been noted.
    have clean : ¬ (f.declare strict blame name).Refused := blameless
    rw [declare_refused_iff] at clean
    simp only [not_or, Bool.not_eq_true] at clean
    obtain ⟨before, unrestricted, fresh, -⟩ := clean
    obtain ⟨same, -, allowed, distinct⟩ := records.lawful strictly before
    subst same
    refine ⟨?_, by simp, forall_mem_concat allowed unrestricted, ?_⟩
    · have extended : (f.declare strict blame name).names = f.names ++ [name] := by
        rw [declare_names, fresh]
        rfl
      exact extended
    · refine List.nodup_append.mpr ⟨distinct, List.pairwise_singleton _ _, ?_⟩
      rintro other known _ last rfl
      simp_all

theorem Records.effectiveDefaults {f : Formals β} (records : f.Records r names) :
    ∀ n, some n ∈ f.effectiveDefaults → Proper r .expression n := by
  unfold Formals.effectiveDefaults
  split
  · exact records.defaults
  · simp

end Formals

def FormedBlock (r : Regime) (n : Node) : Prop :=
  ∃ body, n = .blockStatement body ∧ ∀ n ∈ body, Proper r .statement n

/-- Strict code goes on only if nothing was noted. -/
theorem refuseRestricted_formed (f : Formals Token) (message : Option Message) :
    Steady r (refuseRestricted f message) (fun _ => r.strict → ¬ f.Refused) := by
  refine fun σ => .isStrict fun strict isStrict => .ite (fun _ => ?_) fun lax => ?_
  · split
    · exact .complainOf _ _
    next first =>
      split
      · exact .complainOf _ _
      next second => exact .pure ⟨by simp [Formals.Refused, first, second], rfl⟩
  · exact .pure ⟨fun strictly => absurd (isStrict strictly) lax, rfl⟩

theorem bodyThen_formed {body : ParseM Node} {check : ParseM Unit} {ends : Node → Stance → Prop}
    {passed : Prop} (reads : Yields r σ body ends) (checks : Steady r check fun _ => passed) :
    Yields r σ (bodyThen body check) (fun n τ => ends n τ ∧ passed) := by
  refine .get fun p started => reads.bind fun n τ ended => .step checks fun _ passed => ?_
  -- The strictness from before the body comes back; the other registers are those the body left.
  refine .modify (τ := τ) (fun q stands => ?_) (.pure ⟨ended, passed⟩)
  exact ⟨started.strict, stands.pyimport, stands.target, stands.settled, stands.candid⟩

theorem functionName_formed :
    Steady r functionName (fun found => r.strict → found.1.isRestricted = false) := by
  intro σ
  refine .after fun token => .after fun name => ?_
  refine .isStrict fun strict isStrict => .ite (fun _ => ?_) fun lax => ?_
  · refine .ite (fun _ => .complainOf _ _) fun allowed => .pure ⟨fun _ => ?_, rfl⟩
    simpa using allowed
  · have sloppy : ¬ r.strict := lax ∘ isStrict
    refine .ite (fun _ => .pure ⟨(absurd · sloppy), rfl⟩) fun _ => ?_
    exact .ite (fun _ => .pure ⟨(absurd · sloppy), rfl⟩) fun _ => .pure ⟨(absurd · sloppy), rfl⟩

structure FormedFunction (r : Regime) (name : Option Node) (params : List Node)
    (defaults : List (Option Node)) (body : Node) : Prop where
  declaration : Proper r .statement (.functionDeclaration name params defaults body)
  expression : Proper r .expression (.functionExpression name params defaults body)

theorem FormedFunction.of_records {f : Formals Token} {name : Option Text}
    {body : Node} (records : f.Records r names) (unblamed : r.strict → ¬ f.Refused)
    (allowed : r.strict → ∀ n ∈ name, n.isRestricted = false) (block : FormedBlock r body) :
    FormedFunction r (name.map .identifier) f.params f.effectiveDefaults body := by
  obtain ⟨statements, rfl, formed⟩ := block
  have lawful (strict : r.strict) : LawfulNames name names :=
    ⟨allowed strict, (records.lawful strict (unblamed strict)).2.2⟩
  rw [records.params]
  constructor
  · exact .functionDeclaration lawful records.effectiveDefaults formed
  · exact .functionExpression lawful records.effectiveDefaults formed

def FormedMethod (r : Regime) (names : List Text) (n : Node) : Prop :=
  ∃ defaults body, n = .functionExpression none (names.map .identifier) defaults body ∧
    Proper r .expression n

theorem refuseOctalString_steady {token : Token} (candid : token.Candid) :
    Steady r (refuseOctalString token) fun _ => r.strict → ∀ value octal,
      token.lexeme = .string value octal → LawfulSpelling (.string value) (token.raw.getD []) := by
  intro σ
  unfold refuseOctalString
  split
  next =>
    refine .isStrict fun strict known => .ite (fun _ => .complainOf _ _) fun sloppy => .pure ⟨?_, rfl⟩
    exact fun strictly => absurd (known strictly) sloppy
  next other =>
    refine .pure ⟨fun _ value octal lexeme => ?_, rfl⟩
    have plain : octal = false := by
      cases octal with
      | true => exact absurd lexeme (other value)
      | false => rfl
    exact (candid.octal value octal lexeme).trans plain

theorem propertyKey_named {p : Parser} {token : Token} {name : Text} (found : p.lookahead = some token)
    (lexeme : token.lexeme = .identifier name) :
    Meets (propertyKey reader) p (fun key _ => key = .identifier name) anyFault := by
  have taken : Meets take p (fun given _ => given = token) anyFault := by
    refine (lex_returns p).bind fun given q met => ?_
    rw [met.1, found]
    exact rfl
  refine taken.bind fun given q same => ?_
  subst same
  simp only [tokenLiteral?, Lexeme.name?, lexeme]
  exact rfl

def Furnishes (r : Regime) (σ : Stance) (n : Node) (τ : Stance) : Prop :=
  Formed r τ.settled .property n ∧ τ ≤ σ

theorem moreExpressions_yields {part : ParseM Node} {first : Node} (holds : List Node → Stance → Prop)
    (start : holds [first] σ)
    (further : ∀ nodes τ, holds nodes τ → Yields r τ part fun n υ => holds (nodes ++ [n]) υ) :
    Yields r σ (moreExpressions part first) holds := by
  refine .collected holds (fun nodes τ held => ?_) start
  refine .fork ?_ <| .pure held
  refine .fork (.skip ?_) <| .pure held
  exact (further nodes τ held).bind fun _ _ extended => .pure extended

theorem templateLiteral_refused {α : Type} {ends : α → Stance → Prop} : Yields r σ templateLiteral ends :=
  fun _ _ => templateLiteral_fails.imp fun _ _ impossible => impossible.elim

theorem literal_expressed {value : Literal} {raw : Text} (shown : value.ShownBy raw)
    (lawful : r.strict → LawfulSpelling value raw) (s : Prop) : Expressed r (.literal value raw) ⟨False, s⟩ :=
  ⟨.literal shown lawful, False.elim⟩

theorem regExp_steady : Steady r regExp fun found => found.raw.head? = some 0x2F := by
  intro σ p stands
  refine ((regExp_quiet.undisturbed p).and_returns (regExp_fetches p)).imp ?_
  rintro found q ⟨quiet, _, _, _, read, -⟩
  exact ⟨σ, ⟨(RegExp.scan_along.of_ok read).2.2.2, rfl⟩, stands.congr quiet⟩

theorem regExpLiteral_formed : Expresses r regExpLiteral := by
  intro σ
  refine .expressionOnly (.after fun mark => .quietly (.modify fun _ => rfl) fun _ => ?_)
  refine .step regExp_steady fun found slash => .skip ?_
  obtain ⟨rest, spelled⟩ := List.head?_eq_some_iff.mp slash
  exact .pure (literal_expressed ⟨0x2F, rest, spelled, nofun⟩ (fun _ => by trivial) _)

theorem expressionFrom_formed {assignment : ParseM Node} (reads : Expresses r assignment) :
    Steady r (expressionFrom assignment) (Proper r .expression) := by
  refine fun σ => .step reads.isolated fun first formed => .after fun _ => ?_
  refine .ite (fun _ => ?_) fun _ => .pure ⟨formed, rfl⟩
  have more : Steady r (moreExpressions (isolated assignment) first)
      (fun expressions => ∀ n ∈ expressions, Proper r .expression n) := by
    intro τ
    refine moreExpressions_yields _ ⟨by simpa using formed, rfl⟩ fun nodes υ held => ?_
    exact (reads.isolated υ).imp fun n ω met => ⟨forall_mem_concat held.1 met.1, met.2.trans held.2⟩
  refine .step more fun expressions formed => .pure ⟨?_, rfl⟩
  exact .sequenceExpression formed

theorem dottedMember_formed : Steady r dottedMember (fun n => ∃ name, n = .identifier name) := by
  refine fun σ => .skip <| .after fun token => ?_
  split
  next name _ => exact .pure ⟨⟨name, rfl⟩, rfl⟩
  next => exact .unexpected _

theorem targetOnly_yields {β : Type} {f : Unit → ParseM β} {ends : β → Stance → Prop}
    (next : Yields r ⟨True, σ.settled⟩ (f ()) ends) : Yields r σ (targetOnly >>= f) ends := by
  refine .modify (fun p stands => ?_) next
  exact ⟨stands.strict, stands.pyimport, fun _ => trivial, stands.settled, stands.candid⟩

theorem withIn_yields {α : Type} {part : ParseM α} {ends : α → Stance → Prop}
    (reads : Yields r σ part ends) : Yields r σ (withIn part) ends := by
  refine .after fun _ => .skip ?_
  exact reads.bind fun result τ ended => .skip <| .pure ended

theorem checkUpdate_formed {argument : Node} (expressed : Expressed r argument σ) (message : Message) :
    Yields r σ (checkUpdate argument message) (fun _ τ =>
      ((r.strict → argument.isRestrictedName = false) ∧ argument.passesForTarget = true) ∧ τ = σ) := by
  refine .isStrict fun strict isStrict => .ite (fun _ => .complain _ _) fun allowed => ?_
  refine .get fun p stands => .ite (fun isTarget => .pure ⟨⟨fun strictly => ?_, ?_⟩, rfl⟩)
    fun _ => .complain _ _
  · simpa [isStrict strictly] using allowed
  · exact expressed.passes (stands.target isTarget)

theorem checkUnary_formed (operator : UnaryOperator) (argument : Node) :
    Steady r (checkUnary operator argument)
      (fun _ => r.strict → operator = .delete → argument.name? = none) := by
  refine fun σ => .isStrict fun strict isStrict => .ite (fun _ => .complain _ _) fun allowed => ?_
  refine .pure ⟨fun strictly deletes => ?_, rfl⟩
  simpa [isStrict strictly, deletes] using allowed

variable {s : Prop} {stack : List Pending} {right : Node}

/-- The operands that wait and the last one. All but the first of them were read on their own. -/
def Stacked (r : Regime) (s : Prop) : List Pending → Node → Prop
  | [], last => Formed r s .expression last
  | pending :: rest, last => Proper r .expression last ∧ Stacked r s rest pending.left

theorem Stacked.binary {left : Node} (stacked : Stacked r s stack left)
    (formed : Proper r .expression right) (operator : BinaryOperator) :
    Stacked r s stack (.binaryExpression operator left right) := by
  cases stack with
  | nil => exact .binaryExpression operator stacked formed
  | cons pending rest => exact ⟨.binaryExpression operator stacked.1 formed, stacked.2⟩

theorem reduce_formed (precedence : Nat) (stacked : Stacked r s stack right) :
    Stacked r s (reduce precedence stack right).1 (reduce precedence stack right).2 := by
  -- What is taken from the stack becomes the right operand of what lies below it.
  induction stack generalizing right with
  | nil => exact stacked
  | cons pending rest ih =>
    unfold reduce
    split
    · exact ih (stacked.2.binary stacked.1 _)
    · exact stacked

theorem reduceAll_formed (stacked : Stacked r s stack right) :
    Formed r s .expression (reduceAll stack right) := by
  induction stack generalizing right with
  | nil => exact stacked
  | cons pending rest ih => exact ih (stacked.2.binary stacked.1 _)

/-- An expression that is read as a target is formed, whether or not it is settled: a default that shows
in it makes sense now. -/
theorem reinterpreted_formed {expression : Node} (expressed : Expressed r expression σ) :
    Steady r (reinterpreted expression)
      (fun target => Formed r False .target target ∧ target.name? = expression.name?) := by
  intro τ
  unfold reinterpreted
  split
  next target found =>
    have formed := (expressed.formed.mono False.elim).retargets found
    exact .pure ⟨⟨formed, Node.name?_asPattern? found⟩, rfl⟩
  next => exact .throw _

def Assignable (r : Regime) (operator : AssignmentOperator) (left : Node) (τ : Stance) : Prop :=
  (r.strict → left.isRestrictedName = false) ∧
    if operator = .assign then Formed r False .target left
    else Formed r False .expression left ∧ left.passesForTarget = true ∧ ¬ τ.target

theorem Assignable.expressed {operator : AssignmentOperator} {left right : Node}
    (assignable : Assignable r operator left τ) (value : Proper r .expression right) (s : Prop) :
    Expressed r (.assignmentExpression operator left right) ⟨τ.target, s⟩ := by
  obtain ⟨lawful, place⟩ := assignable
  split at place
  next plain =>
    subst plain
    exact ⟨.assignmentExpression lawful place value, fun _ => rfl⟩
  next compound =>
    obtain ⟨formed, passes, noTarget⟩ := place
    refine ⟨?_, fun target => absurd target noTarget⟩
    exact .operationExpression compound lawful passes formed value

theorem assignmentTarget_formed (first : Option Token) (operator : AssignmentOperator) {expression : Node}
    (expressed : Expressed r expression σ) :
    Yields r σ (assignmentTarget first operator expression) (Assignable r operator) := by
  refine .get fun p stands => .ite (fun isTarget => ?_) fun _ => .complain _ _
  refine .isStrict fun strict isStrict => .ite (fun _ => .complainOf _ _) fun allowed => ?_
  have lawful (strictly : r.strict) : expression.isRestrictedName = false := by
    simpa [isStrict strictly] using allowed
  refine .ite (fun plain => ?_) fun compound => ?_
  · refine (reinterpreted_formed expressed σ).imp fun target τ met => ?_
    obtain ⟨⟨formed, same⟩, -⟩ := met
    refine ⟨fun strictly => ?_, by rwa [if_pos plain]⟩
    simpa only [Node.isRestrictedName, same] using lawful strictly
  · refine .expressionOnly (.pure ⟨lawful, ?_⟩)
    rw [if_neg compound]
    exact ⟨expressed.formed.mono False.elim, expressed.passes (stands.target isTarget), id⟩

variable (trusted : Trusted r reader)
include trusted

/-! ### Functions -/

theorem initializer_formed : Steady r (initializer reader) (Proper r .expression) :=
  fun _ => .skip <| trusted.assignment.isolated _

theorem patternAndDefault_formed :
    Steady r (patternAndDefault reader) (fun found => ∀ n ∈ found.2, Proper r .expression n) := by
  intro σ
  refine .after fun name => .fork ?_ ?_
  · refine .step (initializer_formed trusted) fun value formed => .pure ⟨?_, rfl⟩
    simpa using formed
  · exact .pure ⟨by simp, rfl⟩

theorem addParameter_formed {β : Type} (blame : Token → β) {f : Formals β} (records : f.Records r names) :
    Steady r (addParameter reader blame f) (fun f => ∃ name, f.Records r (names ++ [name])) := by
  have found : Steady r (parameter reader) (fun found => ∀ n ∈ found.2.2, Proper r .expression n) := by
    intro σ
    refine .after fun token => .ite (fun _ => .throw _) fun _ => ?_
    refine .ite (fun _ => .throw _) fun _ => .step (patternAndDefault_formed trusted) ?_
    exact fun found formed => .pure ⟨formed, rfl⟩
  intro σ
  refine .step found fun found formed => .after fun strict => .pure ⟨⟨found.2.1, ?_⟩, rfl⟩
  exact records.add strict _ _ formed

theorem parameters_formed {β : Type} (blame : Token → β) (firstRestricted : Option β) :
    Steady r (parameters reader blame firstRestricted) (fun f => ∃ names, f.Records r names) := by
  intro σ
  refine .after fun _ => .after fun _ => ?_
  have finish (f : Formals β) (records : ∃ names, f.Records r names) :
      Yields r σ (do expect .closeParen; pure f) (fun f τ => (∃ names, f.Records r names) ∧ τ = σ) :=
    .skip <| .pure ⟨records, rfl⟩
  have empty : ∃ names, Formals.Records r ({ firstRestricted } : Formals β) names := ⟨[], .empty _⟩
  refine .ite (fun _ => finish _ empty) fun _ => ?_
  refine .step (.repeated (fun f => ∃ names, f.Records r names) ?_ empty) finish
  -- In each round one name is added to those recorded, or the list ends.
  rintro f ⟨names, records⟩ σ
  refine .fork ?_ <| .pure ⟨⟨names, records⟩, rfl⟩
  refine .step (addParameter_formed trusted blame records) fun f extended => ?_
  obtain ⟨name, records⟩ := extended
  refine .fork (.pure ⟨⟨_, records⟩, rfl⟩) ?_
  exact .skip <| .pure ⟨⟨_, records⟩, rfl⟩

/-- Directives, up to the end of the last one. -/
theorem directiveRound_formed {check : Option Token → ParseM Unit}
    (quiet : ∀ octal, Quiet (check octal)) {state : List Node × Option Token}
    (before : ∀ n ∈ state.1, Proper r .statement n) : Loose r (directiveRound reader check state)
      (Sum.elim (fun state => ∀ n ∈ state.1, Proper r .statement n)
        (fun body => ∀ n ∈ body, Proper r .statement n)) := by
  intro σ
  refine .fork ?_ <| .pure before
  refine .after fun token => ?_
  split
  case h_2 => exact .pure before
  refine (trusted.listItem σ).bind fun statement τ formed => ?_
  have body := forall_mem_concat before formed
  have judged : Quiet (isDirective statement) := by
    unfold isDirective
    split
    · exact .pure _
    · exact .throw _
  refine .fork ?_ <| .pure body
  refine .after fun _ => .ite (fun _ => ?_) fun _ => .pure body
  -- Code becomes strict here, or was so before.
  refine .modify (τ := τ) (fun p stands => ?_) (.quietly (quiet _) fun _ => .pure body)
  exact ⟨fun _ => rfl, stands.pyimport, stands.target, stands.settled, stands.candid⟩

theorem statementsFrom_formed {before : List Node} (formed : ∀ n ∈ before, Proper r .statement n) :
    Loose r (statementsFrom reader before) (fun body => ∀ n ∈ body, Proper r .statement n) := by
  refine .repeated (fun body => ∀ n ∈ body, Proper r .statement n) (fun body formed σ => ?_) formed
  refine .fork ?_ <| .pure formed
  refine .fork (.pure formed) ?_
  exact (trusted.listItem σ).bind fun statement _ last => .pure (forall_mem_concat formed last)

theorem functionBody_formed : Loose r (functionBody reader) (FormedBlock r) := by
  intro σ
  have started : Loose r (directives reader) (fun body => ∀ n ∈ body, Proper r .statement n) := by
    rw [directives_eq]
    exact .repeated _ (fun state before => directiveRound_formed trusted refuseOctal_quiet before) nofun
  refine .skip <| (started σ).bind fun body τ before => ?_
  refine .after fun _ => .skip ?_
  refine (statementsFrom_formed trusted before τ).bind fun body _ formed => ?_
  refine .skip (.skip ?_)
  exact .pure ⟨body, rfl, formed⟩

theorem functionTail_formed (nameRequired : Bool) :
    Loose r (functionTail reader nameRequired) (fun found =>
      FormedFunction r found.1 found.2.1.params found.2.1.effectiveDefaults found.2.2) := by
  intro σ
  -- What is read once the name is known or known to be missing.
  have named (name : Option (Text × Option (Token × Message)))
      (allowed : ∀ found ∈ name, r.strict → found.1.isRestricted = false) :
      Yields r σ (functionRest reader name) (fun found _ =>
        FormedFunction r found.1 found.2.1.params found.2.1.effectiveDefaults found.2.2) := by
    refine .step (parameters_formed trusted id _) fun f recorded => ?_
    obtain ⟨names, records⟩ := recorded
    have body := bodyThen_formed (functionBody_formed trusted σ) (refuseRestricted_formed f
      (f.message.or ((name.bind Prod.snd).map Prod.snd)))
    refine body.bind fun body τ met => .pure ?_
    rw [← Option.map_map]
    refine .of_records records met.2 (fun strict n found => ?_) met.1
    obtain ⟨entry, isName, rfl⟩ := Option.map_eq_some_iff.mp found
    exact allowed entry isName strict
  have name : Steady r (some <$> functionName)
      (fun name => ∀ found ∈ name, r.strict → found.1.isRestricted = false) :=
    .map fun σ => (functionName_formed σ).imp fun found _ met => ⟨by simpa using met.1, met.2⟩
  refine .ite (fun _ => .step name named) fun _ => .after fun _ => ?_
  exact .ite (fun _ => named none (by simp)) fun _ => .step name named

theorem functionDeclaration_formed (nameRequired : Bool) :
    Loose r (functionDeclaration reader nameRequired) (Proper r .statement) := by
  refine fun σ => .skip ?_
  exact (functionTail_formed trusted nameRequired σ).bind fun _ _ formed => .pure formed.declaration

theorem functionExpression_formed : Expresses r (functionExpression reader) := by
  refine fun σ => .skip ?_
  refine (functionTail_formed trusted false σ).bind fun _ _ formed => .pure ?_
  exact ⟨formed.expression.under, fun _ => rfl⟩

/-- Reading a method leaves no target behind. -/
theorem methodOf_formed {f : Formals Token} (records : f.Records r names) :
    Yields r σ (methodOf reader f) fun n τ => FormedMethod r names n ∧ τ = ⟨False, σ.settled⟩ := by
  -- The body is read on its own, so the registers say afterwards what they said before it.
  have body := bodyThen_formed (Steady.isolated_of_loose (functionBody_formed trusted) ⟨False, σ.settled⟩)
    (refuseRestricted_formed f f.message)
  have whole : Yields r σ (methodBody reader (refuseRestricted f f.message)) _ := .expressionOnly body
  refine whole.bind fun body τ met => .pure ?_
  obtain ⟨⟨block, rfl⟩, unblamed⟩ := met
  have formed : FormedFunction r ((none : Option Text).map .identifier) f.params f.effectiveDefaults body :=
    .of_records records unblamed (fun _ => nofun) block
  refine ⟨⟨f.effectiveDefaults, body, ?_, formed.expression⟩, rfl⟩
  rw [records.params]

/-! ### Properties -/

theorem propertyKey_formed : Steady r (propertyKey reader) (Proper r .expression) := by
  refine fun σ => .take fun token candid => ?_
  split
  next literal found =>
    refine .step (refuseOctalString_steady candid) fun _ lawful => .pure ⟨?_, rfl⟩
    unfold tokenLiteral? at found
    split at found <;> cases found
    next lexeme =>
      exact .literal (candid.shown _ (by rw [lexeme]; rfl)) fun strictly => lawful strictly _ _ lexeme
    next lexeme => exact .literal (candid.shown _ (by rw [lexeme]; rfl)) fun _ => trivial
  next =>
    split
    · exact .pure ⟨.identifier _, rfl⟩
    · refine .ite (fun _ => .step trusted.assignment.isolated fun key formed => ?_) fun _ => .unexpected _
      exact .skip <| .pure ⟨formed, rfl⟩

theorem getter_formed : Yields r σ (getter reader) (Furnishes r σ) := by
  refine .after fun _ => .step (propertyKey_formed trusted) fun key key_formed => ?_
  refine .skip (.skip ?_)
  refine (methodOf_formed trusted (.empty none)).bind fun value τ met => .pure ?_
  obtain ⟨⟨defaults, body, rfl, formed⟩, rfl⟩ := met
  exact ⟨.getter key_formed formed.under, nofun, id⟩

theorem setter_formed : Yields r σ (setter reader) (Furnishes r σ) := by
  refine .after fun _ => .step (propertyKey_formed trusted) fun key key_formed => ?_
  refine .after fun _ => .after fun _ => ?_
  refine .ite (fun _ => .after fun _ => .unexpected _) fun _ => ?_
  refine .step (addParameter_formed trusted id (.empty none)) fun f recorded => ?_
  obtain ⟨name, records⟩ := recorded
  refine .skip <| (methodOf_formed trusted records).bind fun value τ met => .pure ?_
  obtain ⟨⟨defaults, body, rfl, formed⟩, rfl⟩ := met
  exact ⟨.setter key_formed formed.under, nofun, id⟩

theorem method_formed : Yields r σ (method reader) fun n τ => Proper r .expression n ∧ τ ≤ σ := by
  refine .step (parameters_formed trusted id none) fun f recorded => ?_
  obtain ⟨names, records⟩ := recorded
  refine (methodOf_formed trusted records).imp fun n τ met => ?_
  obtain ⟨⟨defaults, body, -, formed⟩, rfl⟩ := met
  exact ⟨formed, nofun, id⟩

theorem methodDefinition?_formed (first : Lexeme) {key : Node}
    (key_formed : Proper r .expression key) (computed : Bool) :
    Yields r σ (methodDefinition? reader first key computed)
      (fun found τ => (∀ n ∈ found, Formed r τ.settled .property n) ∧ τ ≤ σ) := by
  -- Without an accessor the key may still belong to a method.
  have other {τ : Stance} (below : τ ≤ σ) : Yields r τ (do
        if ← atMark .openParen then do
          let value ← method reader
          pure (some (Node.property .init key computed value true false))
        else pure none)
      (fun found τ => (∀ n ∈ found, Formed r τ.settled .property n) ∧ τ ≤ σ) := by
    refine .fork ?_ <| .pure ⟨by simp, below⟩
    refine (method_formed trusted).bind fun value υ read => .pure ⟨?_, le_trans read.2 below⟩
    rintro n ⟨⟩
    exact .dataProperty key_formed read.1.under
  have some_found {rule : ParseM Node} (reads : Yields r σ rule (Furnishes r σ)) :
      Yields r σ (some <$> rule)
        (fun found τ => (∀ n ∈ found, Formed r τ.settled .property n) ∧ τ ≤ σ) :=
    .map (reads.imp fun n τ met => ⟨by simpa using met.1, met.2⟩)
  have looks : Quiet atPropertyName := .bind lookahead_quiet fun _ => .pure _
  refine .ite (fun _ => ?_) fun _ => .ite (fun _ => ?_) fun _ => other le_rfl
  · refine .fork ((some_found (getter_formed trusted)).bind ?_) (other le_rfl)
    rintro (_ | _) τ met
    · exact other met.2
    · exact .pure met
  · refine .fork ((some_found (setter_formed trusted)).bind ?_) (other le_rfl)
    rintro (_ | _) τ met
    · exact other met.2
    · exact .pure met

/-- A default among the properties is noted in the register, so nothing is settled after it. -/
theorem shorthand_formed (name : Text) (computed : Bool) :
    Yields r σ (shorthand reader (.identifier name) computed) (Furnishes r σ) := by
  refine .fork ?_ ?_
  · refine .after fun token => .modify (τ := ⟨σ.target, False⟩) (fun p stands => ?_) ?_
    · -- The register holds the token now, so it cannot be empty.
      exact ⟨stands.strict, stands.pyimport, stands.target, nofun, stands.candid⟩
    · refine .step (initializer_formed trusted) fun value formed => .pure ⟨?_, id, nofun⟩
      exact .coverProperty id (.assignmentPattern name formed)
  · exact .pure ⟨.dataProperty (.identifier name) (.identifier name), le_rfl⟩

theorem propertyTail_formed (first : Lexeme) {key : Node} (key_formed : Proper r .expression key)
    (named : ∀ name, first = .identifier name → key = .identifier name) (computed : Bool) :
    Yields r σ (do
      match ← methodDefinition? reader first key computed with
      | some node => pure node
      | none => do
        if ← atMark .colon then do
          drop
          let value ← inherited (reader .assignment)
          pure (.property .init key computed value false false)
        else
          match first with
          | .identifier _ => shorthand reader key computed
          | _ => unexpected (← lookahead)) (Furnishes r σ) := by
  refine (methodDefinition?_formed trusted first key_formed computed).bind fun found τ met => ?_
  cases found with
  | some node => exact .pure ⟨met.1 node rfl, met.2⟩
  | none =>
    refine .fork (.skip ?_) ?_
    · refine trusted.assignment.inherited.bind fun value υ read => .pure ?_
      exact ⟨.dataProperty key_formed read.1.formed, le_trans read.2 met.2⟩
    · split
      next name =>
        rw [named name rfl]
        exact (shorthand_formed trusted name computed).imp fun n υ read => ⟨read.1, le_trans read.2 met.2⟩
      next => exact .after fun _ => .unexpected _

theorem property_formed : Yields r σ (property reader) (Furnishes r σ) := by
  intro p stands
  -- The token is looked at and left there, so the key starts with it. Stances do not speak of tokens,
  -- hence the two facts about the key are proved apart and joined at the same run.
  refine (lookahead_returns p).bind fun token q seen => ?_
  obtain ⟨rfl, found⟩ := seen
  have asked : Meets (atMark .openBracket) q (fun _ s => s = q) anyFault :=
    (lookahead_returns q).bind fun _ _ seen => seen.1
  refine asked.bind fun computed s same => ?_
  subst same
  have key : Meets (propertyKey reader) s (fun key t => (Proper r .expression key ∧ t.Stands r σ) ∧
      ∀ name, token.lexeme = .identifier name → key = .identifier name) anyFault := by
    refine Meets.of_returns fun key t run => ⟨?_, fun name lexeme => ?_⟩
    · have met := (propertyKey_formed trusted σ s stands).of_ok run
      obtain ⟨_, ⟨formed, rfl⟩, ended⟩ := met
      exact ⟨formed, ended⟩
    · have met := (propertyKey_named found lexeme).of_ok run
      exact met
  refine key.bind fun key t met => ?_
  obtain ⟨⟨key_formed, stands⟩, named⟩ := met
  exact propertyTail_formed trusted token.lexeme key_formed named computed t stands

/-! ### Objects and arrays -/

theorem objectInitializer_formed : Expresses r (objectInitializer reader) := by
  intro σ
  refine .skip <| .bind (.collected
    (fun properties τ => ∀ n ∈ properties, Formed r τ.settled .property n) ?_ (by simp)) ?_
  · intro properties τ before
    refine .fork (.pure before) ?_
    refine (property_formed trusted).bind fun next υ met => .after fun _ => ?_
    -- The properties from before are known under what is settled now, which may be less.
    have formed : ∀ n ∈ properties ++ [next], Formed r υ.settled .property n :=
      forall_mem_concat (fun n member => (before n member).mono met.2.2) met.1
    refine .ite (fun _ => .pure formed) fun _ => ?_
    exact .skip <| .pure formed
  · intro properties τ formed
    exact .skip <| .pure ⟨.objectExpression formed, fun _ => rfl⟩

theorem arrayInitializer_formed : Expresses r (arrayInitializer reader) := by
  intro σ
  refine .skip <| .bind (.collected
    (fun elements τ => ∀ n, some n ∈ elements → Formed r τ.settled .expression n) ?_ (by simp)) ?_
  · intro elements τ before
    refine .after fun token => ?_
    split
    · exact .pure before
    · refine .skip <| .pure fun n member => before n ?_
      simpa using member
    · exact .skip <| .throw _
    · refine trusted.assignment.inherited.bind fun element υ met => .after fun _ => ?_
      have formed : ∀ n, some n ∈ elements ++ [some element] → Formed r υ.settled .expression n := by
        intro n member
        rcases List.mem_append.mp member with member | last
        · exact (before n member).mono met.2.2
        · obtain rfl := Option.some.inj (List.mem_singleton.mp last)
          exact met.1.formed
      refine .ite (fun _ => .pure formed) fun _ => ?_
      exact .skip <| .pure formed
  · intro elements τ formed
    exact .skip <| .pure ⟨.arrayExpression formed, fun _ => rfl⟩

/-! ### Primary expressions -/

theorem groupMember_formed :
    Yields r σ (groupMember reader) fun n τ => Formed r τ.settled .expression n ∧ τ ≤ σ := by
  refine .fork (.throw _) ?_
  exact trusted.assignment.inherited.imp fun n τ met => ⟨met.1.formed, met.2⟩

theorem group_formed : Expresses r (group reader) := by
  intro σ
  refine .after fun _ => .after fun _ => ?_
  refine .ite (fun _ => .throw _) fun _ => .after fun _ => ?_
  refine .ite (fun _ => .throw _) fun _ => .quietly (.modify fun _ => rfl) fun _ => ?_
  refine trusted.assignment.inherited.bind fun first τ met => .after fun _ => ?_
  have finish (n : Node) (υ : Stance) (expressed : Expressed r n υ) :
      Yields r υ (closeGroup n) (Expressed r) := by
    refine .after fun _ => .after fun _ => ?_
    exact .ite (fun _ => .throw _) fun _ => .quietly (.modify fun _ => rfl) fun _ => .pure expressed
  refine .ite (fun _ => ?_) fun _ => finish first τ met.1
  -- A sequence is no target, however its expressions are read.
  refine .modify (τ := ⟨False, τ.settled⟩) (fun p stands => ?_) ?_
  · exact ⟨stands.strict, stands.pyimport, nofun, stands.settled, stands.candid⟩
  · refine (moreExpressions_yields
      (fun nodes υ => (∀ n ∈ nodes, Formed r υ.settled .expression n) ∧ υ ≤ ⟨False, τ.settled⟩)
      ⟨by simpa using met.1.formed, le_rfl⟩ fun nodes υ held => ?_).bind fun expressions υ met => ?_
    · refine (groupMember_formed trusted).imp fun n ω met => ⟨?_, le_trans met.2 held.2⟩
      exact forall_mem_concat (fun n member => (held.1 n member).mono met.2.2) met.1
    · exact finish _ υ ⟨.sequenceExpression met.1, fun target => (met.2.1 target).elim⟩

theorem keywordExpression_formed (word : Keyword) : Expresses r (keywordExpression reader word) := by
  refine fun σ => .expressionOnly ?_
  split
  · exact functionExpression_formed trusted _
  · exact .skip <| .pure ⟨.thisExpression, False.elim⟩
  · exact .throw _
  · exact .after fun _ => .unexpected _

theorem primary_formed : Expresses r (primary reader) := by
  refine fun σ => .lookahead fun token candid => ?_
  split
  · refine .quietly (.modify fun _ => rfl) fun _ => ?_
    exact (group_formed trusted).inherited.imp fun _ _ met => met.1
  · exact (arrayInitializer_formed trusted).inherited.imp fun _ _ met => met.1
  · exact (objectInitializer_formed trusted).inherited.imp fun _ _ met => met.1
  · exact .skip <| .pure ⟨.identifier _, fun _ => rfl⟩
  next lexeme =>
    refine .expressionOnly (.step (refuseOctalString_steady candid) fun _ lawful => ?_)
    refine .skip <| .pure (literal_expressed (candid.shown _ (by rw [lexeme]; rfl)) (fun strictly => ?_) _)
    exact lawful strictly _ _ lexeme
  next lexeme =>
    have shown := candid.shown _ (by rw [lexeme]; rfl)
    exact .expressionOnly (.skip <| .pure (literal_expressed shown (fun _ => by trivial) _))
  · exact keywordExpression_formed trusted _ σ
  next lexeme =>
    -- The register is left as it was, so these literals pass for targets.
    have shown := candid.shown _ (by rw [lexeme]; rfl)
    refine .quietly (.modify fun _ => rfl) fun _ => .skip ?_
    exact .pure ⟨.literal shown fun _ => trivial, fun _ => rfl⟩
  next lexeme =>
    have shown := candid.shown _ (by rw [lexeme]; rfl)
    exact .expressionOnly (.skip <| .pure (literal_expressed shown (fun _ => by trivial) _))
  · exact regExpLiteral_formed σ
  · exact regExpLiteral_formed σ
  · exact templateLiteral_refused
  · exact .after fun _ => .unexpected _
  · exact .after fun _ => .unexpected _

/-! ### Members and calls -/

theorem arguments_formed :
    Steady r (arguments reader) (fun args => ∀ n ∈ args, Proper r .expression n) := by
  refine fun σ => .skip (.after fun _ => ?_)
  have finish (args : List Node) (formed : ∀ n ∈ args, Proper r .expression n) :
      Yields r σ (do expect .closeParen; pure args)
        (fun args τ => (∀ n ∈ args, Proper r .expression n) ∧ τ = σ) :=
    .skip <| .pure ⟨formed, rfl⟩
  refine .ite (fun _ => finish [] (by simp)) fun _ => ?_
  refine .step (.collected (fun args => ∀ n ∈ args, Proper r .expression n) ?_ (by simp)) finish
  intro args before σ
  refine .fork ?_ <| .pure ⟨before, rfl⟩
  refine .step trusted.assignment.isolated fun next formed => .after fun _ => ?_
  have extended := forall_mem_concat before formed
  refine .ite (fun _ => .pure ⟨extended, rfl⟩) fun _ => ?_
  exact .skip <| .pure ⟨extended, rfl⟩

theorem computedMember_formed : Steady r (computedMember reader) (Proper r .expression) := by
  have key := Steady.isolated_of_loose (expressionFrom_formed trusted.assignment).loose
  refine fun σ => .skip <| .step key fun key formed => ?_
  exact .skip <| .pure ⟨formed, rfl⟩

theorem newExpression_formed : Expresses r (newExpression reader) := by
  intro σ
  refine .skip <| .step trusted.leftHandSide.isolated fun callee formed => ?_
  refine .after fun _ => ?_
  have finish (args : List Node) (all_formed : ∀ n ∈ args, Proper r .expression n) :
      Yields r σ (do expressionOnly; pure (.newExpression callee args)) (Expressed r) := by
    exact .expressionOnly (.pure ⟨.newExpression formed all_formed, False.elim⟩)
  exact .ite (fun _ => .step (arguments_formed trusted) finish) fun _ => finish [] (by simp)

theorem head_formed : Expresses r (head reader) := by
  refine fun σ => .after fun token => .after fun _ => ?_
  refine .ite (fun _ => .skip <| .throw _) fun _ => ?_
  have part : Expresses r
      (if token.lexeme = .keyword .new then newExpression reader else primary reader) := by
    split
    · exact newExpression_formed trusted
    · exact primary_formed trusted
  exact part.inherited.imp fun _ _ met => met.1

theorem suffix_formed (allowCall : Bool) {n : Node}
    (expressed : Expressed r n σ) :
    Yields r σ (suffix reader allowCall n) (Sum.elim (Expressed r) (Expressed r)) := by
  refine .after fun token => ?_
  split
  -- A member is a target, whatever its object was; a call is none.
  · refine targetOnly_yields (.step dottedMember_formed fun member isName => .pure ?_)
    obtain ⟨name, rfl⟩ := isName
    exact ⟨.dottedMember expressed.formed name, fun _ => rfl⟩
  · refine .ite (fun _ => .expressionOnly ?_) fun _ => .pure expressed
    refine .step (arguments_formed trusted) fun args formed => .pure ?_
    exact ⟨.callExpression expressed.formed formed, False.elim⟩
  · refine targetOnly_yields (.step (computedMember_formed trusted) fun key formed => .pure ?_)
    exact ⟨.computedMember expressed.formed formed, fun _ => rfl⟩
  · exact templateLiteral_refused
  · exact .pure expressed

theorem suffixes_formed (allowCall : Bool) {start : Node}
    (expressed : Expressed r start σ) : Yields r σ (suffixes reader allowCall start) (Expressed r) :=
  .collected (Expressed r) (fun _ _ expressed => suffix_formed trusted allowCall expressed) expressed

theorem leftHandSideAllowCall_formed : Expresses r (leftHandSideAllowCall reader) :=
  fun σ => withIn_yields ((head_formed trusted σ).bind fun _ _ expressed =>
    suffixes_formed trusted true expressed)

theorem leftHandSide_formed : Expresses r (leftHandSide reader) := by
  refine fun σ => .after fun _ => .ite (fun _ => ?_) fun _ => .throw _
  exact (head_formed trusted σ).bind fun _ _ expressed => suffixes_formed trusted false expressed

/-! ### Operations -/

theorem postfixExpression_formed : Expresses r (postfixExpression reader) := by
  refine fun σ => (leftHandSideAllowCall_formed trusted).inherited.bind fun argument τ met => ?_
  refine .fork (.pure met.1) ?_
  refine .after fun token => ?_
  split
  · refine (checkUpdate_formed met.1 _).bind fun _ υ checked => ?_
    obtain ⟨⟨lawful, passes⟩, rfl⟩ := checked
    exact .expressionOnly (.skip <| .pure
      ⟨.updateExpression _ _ lawful passes met.1.formed, False.elim⟩)
  · exact .pure met.1

theorem unaryExpression_formed : Expresses r (unaryExpression reader) := by
  refine fun σ => .after fun token => ?_
  dsimp only
  split
  · refine .skip <| trusted.unary.inherited.bind fun argument τ met => ?_
    refine (checkUpdate_formed met.1 _).bind fun _ υ checked => ?_
    obtain ⟨⟨lawful, passes⟩, rfl⟩ := checked
    exact .expressionOnly (.pure ⟨.updateExpression _ _ lawful passes met.1.formed, False.elim⟩)
  · split
    · refine .skip <| trusted.unary.inherited.bind fun argument τ met => ?_
      refine .step (checkUnary_formed _ argument) fun _ lawful => ?_
      exact .expressionOnly (.pure ⟨.unaryExpression lawful met.1.formed, False.elim⟩)
    · exact postfixExpression_formed trusted σ

theorem binaryExpression_formed : Expresses r (binaryExpression reader) := by
  refine fun σ => (unaryExpression_formed trusted).inherited.bind fun first τ met => ?_
  refine .after fun found => ?_
  cases found with
  | none => exact .pure met.1
  | some operator =>
    -- Only the first operand was read with the registers of the whole; the others stand on their own.
    have operand := (unaryExpression_formed trusted).isolated
    refine .expressionOnly (.skip (.skip ?_))
    refine .step operand fun second formed => .repeated (fun (state : List Pending × Node) τ =>
      Stacked r τ.settled state.1 state.2 ∧ ¬ τ.target) ?_ ⟨⟨formed, met.1.formed⟩, id⟩
    rintro ⟨stack, right⟩ υ ⟨stacked, noTarget⟩
    refine .after fun found => ?_
    cases found with
    | none => exact .pure ⟨reduceAll_formed stacked, fun target => absurd target noTarget⟩
    | some operator =>
      refine .skip <| .step operand fun next formed => .pure ?_
      exact ⟨⟨formed, reduce_formed operator.precedence stacked⟩, noTarget⟩

theorem conditionalExpression_formed : Expresses r (conditionalExpression reader) := by
  refine fun σ => (binaryExpression_formed trusted).inherited.bind fun test τ met => ?_
  refine .fork (.skip ?_) <| .pure met.1
  have part := trusted.assignment.isolated
  refine .step (fun σ => withIn_yields (part σ)) fun consequent first => ?_
  refine .skip <| .step part fun alternate second => ?_
  exact .expressionOnly (.pure ⟨.conditionalExpression met.1.formed first second, False.elim⟩)

theorem assignmentExpression_formed : Expresses r (assignmentExpression reader) := by
  refine fun σ => .get fun _ _ => ?_
  refine (conditionalExpression_formed trusted σ).bind fun expression τ expressed => ?_
  refine .fork (.throw _) ?_
  refine .after fun token => ?_
  split
  · exact .pure expressed
  · refine (assignmentTarget_formed _ _ expressed).bind fun left υ assignable => ?_
    refine .skip <| .step trusted.assignment.isolated fun right value => ?_
    -- What was noted on the left is forgotten here, also if no target was made of it.
    refine .modify (τ := ⟨υ.target, True⟩) (fun p stands => ?_) (.pure (assignable.expressed value True))
    exact ⟨stands.strict, stands.pyimport, stands.target, fun _ => trivial, stands.candid⟩

theorem expression_formed : Steady r (expression reader) (Proper r .expression) :=
  expressionFrom_formed (assignmentExpression_formed trusted)

end Grammar

end EcmaScript
