import EcmaScript.Proofs.Disciplines

/-!
Functions and expressions, compared. Each rule is made of tests of the lookahead, of steps that take it,
and of rules that come before it, and so it obeys every discipline. The trees are built of what was read
before: a name is taken over from an identifier token, a word that is not one can only become the name of
a member or the key of a property, and whatever has been read ends up in the tree. Two readers stand for
the two sides, since the depth that is allowed for depends on the source.
-/

namespace EcmaScript

variable {α β : Type}

/-! ### Parameters -/

namespace Grammar.Formals

variable {f : Formals β} {g : Formals α}

/-- Strict code refuses one of the parameters. -/
def Refused (f : Formals β) : Prop :=
  f.firstRestricted.isSome ∨ f.stricted.isSome

theorem declare_refused_iff (strict : Bool) (blame : β) (name : Text) :
    (f.declare strict blame name).Refused ↔ f.Refused ∨ name.isRestricted = true ∨
      f.names.contains name = true ∨ strict = false ∧ name.isStrictReserved = true := by
  cases strict with
  | true =>
    unfold declare Refused
    grind
  | false =>
    unfold declare Refused
    grind

theorem declare_names (strict : Bool) (blame : β) (name : Text) : (f.declare strict blame name).names =
      if f.names.contains name then f.names else f.names ++ [name] := by
  unfold declare
  grind

theorem declare_params (strict : Bool) (blame : β) (name : Text) :
    (f.declare strict blame name).params = f.params ∧
      (f.declare strict blame name).defaults = f.defaults := by
  unfold declare
  grind

/-- The same parameters, of which the left side refuses all that the right side does. -/
structure Mirror (f : Formals β) (g : Formals α) : Prop where
  params : f.params = g.params
  defaults : f.defaults = g.defaults
  names : f.names = g.names
  refused : g.Refused → f.Refused

theorem Mirror.declare {strict strict' : Bool} {name : Text} (mirror : f.Mirror g)
    (stricter : strict' = true → strict = true)
    (unreserved : strict = true → strict' = false → name.isStrictReserved = false)
    (blame : β) (blame' : α) : (f.declare strict blame name).Mirror
      (g.declare strict' blame' name) where
  params := by rw [(declare_params ..).1, (declare_params ..).1, mirror.params]
  defaults := by rw [(declare_params ..).2, (declare_params ..).2, mirror.defaults]
  names := by rw [declare_names, declare_names, mirror.names]
  refused := by
    rw [declare_refused_iff, declare_refused_iff, mirror.names]
    rintro (before | restricted | repeated | ⟨sloppy, reserved⟩)
    · exact .inl (mirror.refused before)
    · exact .inr (.inl restricted)
    · exact .inr (.inr (.inl repeated))
    · refine .inr (.inr (.inr ⟨?_, reserved⟩))
      cases strict with
      | true => exact absurd reserved (by simp [unreserved rfl sloppy])
      | false => rfl

theorem Mirror.add (mirror : f.Mirror g) (name : Text) (default : Option Node) :
    (f.add name default).Mirror (g.add name default) where
  params := congrArg (· ++ _) mirror.params
  defaults := congrArg (· ++ _) mirror.defaults
  names := mirror.names
  refused := mirror.refused

theorem Mirror.effectiveDefaults (mirror : f.Mirror g) : f.effectiveDefaults = g.effectiveDefaults := by
  rw [Formals.effectiveDefaults, Formals.effectiveDefaults, mirror.defaults]

theorem mem_effectiveDefaults {node : Node} (member : some node ∈ f.defaults) :
    some node ∈ f.effectiveDefaults := by
  unfold effectiveDefaults
  rwa [if_pos (List.any_eq_true.mpr ⟨_, member, rfl⟩)]

end Grammar.Formals

instance : Bears (Grammar.Formals Token) :=
  ⟨fun f => f.params ++ f.defaults.filterMap fun default => default⟩

instance : Bears (List Grammar.Pending) :=
  ⟨List.map Grammar.Pending.left⟩

namespace Discipline

open Comparison Parse Grammar Node

variable {α : Type} [Bears α] {d : Discipline} {s : Situation} {given hands : List Node}
variable {reader reader' : Reader}

/-! ### Parts without nested rules -/

theorem bindingName_upholds : d.Upholds s bindingName bindingName d.name := by
  refine .taking fun t u known same => ?_
  rw [same]
  split
  next name lexeme => exact .pure (d.named known lexeme) .nil
  next => exact .after fun _ => .ite (.unexpectedAs known) (.unexpected known)
  next => exact .unexpected known

theorem bindingIdentifier_reads : d.Reads s bindingIdentifier bindingIdentifier :=
  .learn bindingName_upholds fun _ named => .pure (d.identifier.mpr named) .nil

theorem pattern_upholds : d.Upholds s pattern pattern d.name := by
  refine .looking fun t u known same => ?_
  rw [same]
  split
  · exact bindingName_upholds
  · exact .unsupported
  · exact .unsupported
  · exact .unexpected known

/-- The same parameters, where those on the left are known. -/
structure Declares (d : Discipline) (f g : Formals Token) : Prop where
  mirror : f.Mirror g
  params : ∀ node ∈ f.params, d.expression node
  defaults : ∀ default ∈ f.defaults, ∀ node ∈ default, d.expression node
  stricted : ∀ t, f.stricted = some t → d.token t t
  firstRestricted : ∀ t, f.firstRestricted = some t → d.token t t

namespace Declares

variable {f g : Formals Token}

theorem self (declares : d.Declares f g) : d.Declares f f :=
  { declares with mirror := ⟨rfl, rfl, rfl, id⟩ }

theorem empty {restricted restricted' : Option Token}
    (refused : restricted'.isSome → restricted.isSome)
    (known : ∀ t, restricted = some t → d.token t t) :
    d.Declares { firstRestricted := restricted } { firstRestricted := restricted' } :=
  ⟨⟨rfl, rfl, rfl, .imp refused id⟩, by simp, by simp, by simp, known⟩

/-- Whatever is noted about a parameter, its own token is the only one that is new. -/
theorem declare (declares : d.Declares f g) (strict : Bool) {t u : Token} (known : d.token t u)
    (name : Text) : d.Declares (f.declare strict t name) (g.declare strict u name) := by
  have blamed : ∀ other, some t = some other → d.token other other := by
    rintro _ ⟨⟩
    exact d.self known
  have mirror : (f.declare strict t name).Mirror (g.declare strict u name) :=
    declares.mirror.declare id (fun isStrict notStrict => by simp_all) t u
  refine { mirror, params := ?_, defaults := ?_, stricted := ?_, firstRestricted := ?_ }
  · rw [(Formals.declare_params ..).1]
    exact declares.params
  · rw [(Formals.declare_params ..).2]
    exact declares.defaults
  all_goals
    unfold Formals.declare
    dsimp only
    repeat' split
    all_goals first
      | exact declares.stricted
      | exact declares.firstRestricted
      | exact blamed

theorem add (declares : d.Declares f g) {name : Text} (named : d.name name) {default : Option Node}
    (closed : ∀ node ∈ default, d.expression node) :
    d.Declares (f.add name default) (g.add name default) where
  mirror := declares.mirror.add name default
  params := forall_mem_concat declares.params (d.identifier.mpr named)
  defaults := forall_mem_concat declares.defaults closed
  stricted := declares.stricted
  firstRestricted := declares.firstRestricted

theorem head (declares : d.Declares f g) {id : Option Node} (named : ∀ node ∈ id, d.expression node) :
    ∀ node ∈ id.toList ++ f.params ++ f.effectiveDefaults.filterMap fun default => default,
      d.expression node := by
  simp only [List.forall_mem_append, Option.mem_toList]
  refine ⟨⟨named, declares.params⟩, fun node member => ?_⟩
  obtain ⟨default, listed, rfl⟩ := List.mem_filterMap.mp member
  unfold Formals.effectiveDefaults at listed
  split at listed
  · exact declares.defaults _ listed node rfl
  · cases listed

end Declares

theorem refuseRestricted_maintains {f g : Formals Token} (declares : d.Declares f g)
    (message message' : Option Message) :
    d.Maintains s (refuseRestricted f message) (refuseRestricted g message') := by
  refine .fork ?_ (.pure trivial .nil)
  split
  next t found => exact .unexpectedAs (declares.firstRestricted t found)
  next first =>
    split
    next t found => exact .unexpectedAs (declares.stricted t found)
    next second =>
      -- What the left side does not refuse the right one does not refuse.
      have accepted : ¬g.Refused := fun refused => by
        simpa [Formals.Refused, first, second] using declares.mirror.refused refused
      simp only [Formals.Refused, not_or, Option.not_isSome_iff_eq_none] at accepted
      simp only [accepted.1, accepted.2]
      exact .pure trivial .nil

theorem refuseOctal_maintains {octal octal' : Option Token} (same : octal.isSome = octal'.isSome)
    (known : ∀ t, octal = some t → d.token t t) : d.Maintains s (refuseOctal octal) (refuseOctal octal') := by
  cases octal with
  | some t => exact .unexpectedAs (known t rfl)
  | none =>
    have absent : octal' = none := by simpa using same
    rw [absent]
    exact .pure trivial .nil

/-- What the directives keep: the statements so far, and the string to complain about. -/
structure Recalls (d : Discipline) (a b : List Node × Option Token) : Prop where
  body : a.1 = b.1
  octal : a.2.isSome = b.2.isSome
  statement : ∀ node ∈ a.1, ∀ c, d.statement c node
  token : ∀ t, a.2 = some t → d.token t t

namespace Recalls

variable {state state' : List Node × Option Token}

theorem self (recalls : d.Recalls state state') : d.Recalls state state :=
  { recalls with body := rfl, octal := rfl }

theorem more (recalls : d.Recalls state state') {t u : Token} {node : Node}
    (lexeme : t.lexeme = u.lexeme) (known : d.token t t) (stated : ∀ c, d.statement c node) :
    d.Recalls (state.1 ++ [node], state.2.or (octalString? t))
      (state'.1 ++ [node], state'.2.or (octalString? u)) where
  body := congrArg (· ++ [node]) recalls.body
  octal := by
    have same : (octalString? t).isSome = (octalString? u).isSome := by
      unfold octalString?
      rw [lexeme]
      split <;> rfl
    show (state.2.or _).isSome = (state'.2.or _).isSome
    rw [Option.isSome_or, Option.isSome_or, recalls.octal, same]
  statement := forall_mem_concat recalls.statement stated
  token := by
    intro other found
    rcases Option.or_eq_some_iff.mp found with before | ⟨-, now⟩
    · exact recalls.token other before
    · unfold octalString? at now
      split at now
      · cases now
        exact known
      · cases now

end Recalls

theorem directiveAnswer_takes (loose : s.loose = true) {state state' : List Node × Option Token}
    (recalls : d.Recalls state state') {found found' : Option (Token × Node × Option Text)}
    (same : d.SameStatement found found') : d.Takes s (trees state ++ trees found)
      (directiveAnswer refuseOctal state found) (directiveAnswer refuseOctal state' found')
      (Sum.LiftRel d.Recalls (Same fun nodes => ∀ node ∈ nodes, ∀ c, d.statement c node)) := by
  obtain ⟨nodes, octal⟩ := state
  obtain ⟨_, octal'⟩ := state'
  obtain rfl : nodes = _ := recalls.body
  have stated : ∀ node ∈ nodes, ∀ c, d.statement c node := recalls.statement
  match found, found', same.same with
  | none, none, _ => exact .give (.inr ⟨rfl, stated⟩) (.inr ⟨rfl, stated⟩) (.of_mem (by simp [trees]))
  | some (t, node, none), some (u, _, _), alike =>
    simp only [Option.map_some, Option.some.injEq, Prod.mk.injEq] at alike
    obtain ⟨-, rfl, rfl⟩ := alike
    have all := forall_mem_concat stated (same.statement _ rfl)
    exact .give (.inr ⟨rfl, all⟩) (.inr ⟨rfl, all⟩) (.of_mem (by simp [trees]))
  | some (t, node, some text), some (u, _, _), alike =>
    simp only [Option.map_some, Option.some.injEq, Prod.mk.injEq] at alike
    obtain ⟨lexeme, rfl, rfl⟩ := alike
    have last := same.statement _ rfl
    refine .ite (.past (d.scopes.stricter loose) fun _ => ?_) ?_
    · have recalls' : d.Recalls (nodes ++ [node], octal) (nodes ++ [node], octal') :=
        ⟨rfl, recalls.octal, forall_mem_concat stated last, recalls.token⟩
      refine .past (refuseOctal_maintains recalls.octal recalls.token) fun _ => ?_
      exact .give (.inl recalls'.self) (.inl recalls') (.of_mem (by simp [trees]))
    · have more := recalls.more lexeme (same.token _ rfl) last
      exact .give (.inl more.self) (.inl more) (.of_mem (by simp [trees]))

/-- The same name of a function, if it has one, whether strict code would refuse it, and its token. -/
structure SameName (d : Discipline) (a b : Option (Text × Option (Token × Message))) : Prop where
  name : a.map Prod.fst = b.map Prod.fst
  refused : (a.bind Prod.snd).isSome = (b.bind Prod.snd).isSome
  named : ∀ found, a = some found → d.name found.1
  known : ∀ blame, a.bind Prod.snd = some blame → d.token blame.1 blame.1

theorem SameName.self {a b : Option (Text × Option (Token × Message))} (same : d.SameName a b) :
    d.SameName a a :=
  { same with name := rfl, refused := rfl }

theorem functionName_takes : d.Takes s [] (some <$> functionName) (some <$> functionName) d.SameName := by
  have named : d.Takes s [] functionName functionName fun a b => d.SameName (some a) (some b) := by
    refine .looking fun t u known _ => .learn bindingName_upholds fun name named => ?_
    have clear : d.SameName (some (name, none)) (some (name, none)) :=
      ⟨rfl, rfl, by simpa using named, by simp⟩
    have blamed (v : Token) (message : Message) :
        d.SameName (some (name, some (t, message))) (some (name, some (v, message))) :=
      ⟨rfl, rfl, by simpa using named, by simpa using d.self known⟩
    refine .fork (.ite (.unexpectedAs known) ?_) (.ite ?_ (.ite ?_ ?_))
    · exact .give clear clear .nil
    · exact .give (blamed t _) (blamed u _) .nil
    · exact .give (blamed t _) (blamed u _) .nil
    · exact .give clear clear .nil
  rw [← bind_pure_comp]
  exact .bindVia named fun _ _ same => .give same.self same .nil

structure SameFunction (d : Discipline) (a b : Option Node × Formals Token × Node) : Prop where
  name : a.1 = b.1
  declares : d.Declares a.2.1 b.2.1
  body : a.2.2 = b.2.2
  named : ∀ node ∈ a.1, d.expression node
  bodied : d.body a.2.2

theorem function_kept (id : Option Node) (f : Formals Token) (body : Node) :
    ∀ part ∈ trees (id, f, body),
      part ∈ (Node.functionExpression id f.params f.effectiveDefaults body).parts.map Prod.snd := by
  have kept : ∀ part ∈ f.defaults.filterMap fun default => default,
      part ∈ f.effectiveDefaults.filterMap fun default => default := by
    simpa using fun part => f.mem_effectiveDefaults
  simp only [trees, parts, List.map_append, map_snd_bare]
  grind

theorem refuseOctalString_maintains {t u : Token} (known : d.token t u) :
    d.Maintains s (refuseOctalString t) (refuseOctalString u) := by
  unfold refuseOctalString
  rw [d.lexeme known]
  split
  · exact .fork (.unexpectedAs known) (.pure trivial .nil)
  · exact .pure trivial .nil

theorem expression_literal (value : Literal) (raw : Text) : d.expression (.literal value raw) :=
  d.plain rfl (by simp [usedParts, parts])

/-- A key is an expression if it is in brackets, and if it is an identifier, which may stand for its own
value; without brackets it is a mere key. -/
structure Keys (d : Discipline) (lexeme : Lexeme) (key : Node) : Prop where
  computed : lexeme = .punctuator .openBracket → d.expression key
  isKey : lexeme ≠ .punctuator .openBracket → key.isKey = true
  word : lexeme.kind = .identifier → d.expression key

/-- What is known of a key that is in brackets or not. -/
def Keyed (d : Discipline) (computed : Bool) (key : Node) : Prop :=
  (computed = true → d.expression key) ∧ (computed = false → key.isKey = true)

instance atPropertyName_idle : d.Idle atPropertyName :=
  ⟨test_maintains Lexeme.startsPropertyName⟩

theorem moreExpressions_takes {m n : ParseM Node} (reads : d.Reads s m n) {first : Node}
    (closed : d.expression first) : d.Takes s [first] (moreExpressions m first) (moreExpressions n first)
      (Same fun nodes => ∀ node ∈ nodes, d.expression node) := by
  refine .collected _ (fun list closed => ?_) (by simpa using closed)
  refine .past d.places.inside fun _ => .ite ?_ (.pure closed .refl)
  refine .fork ?_ (.pure closed .refl)
  refine .skip <| .bind reads fun next last => ?_
  exact .pure (forall_mem_concat closed last) .refl

theorem unbound_maintains (binding : Bool) :
    d.Maintains s (modify fun p => { p with bindingElement := some binding })
      (modify fun p => { p with bindingElement := some binding }) :=
  .modify (fun p => p.unmoved_cover _ _ _) (fun concurs => { concurs with bindingElement := rfl })
    fun _ _ => id

theorem templateLiteral_takes {alike : α → α → Prop} :
    d.Takes s given templateLiteral templateLiteral alike := by
  refine .looking fun t u _ same => ?_
  rw [same]
  split
  · exact .ite .illegal (.skip <| .unsupported)
  · exact .illegal

theorem regExpLiteral_at {apart : Bool} {p q : Parser} {t : Token} (holds : d.Holds s hands apart p q)
    (looked : p.lookahead = some t) (isSlash : t.IsSlash) :
    d.At s apart p q regExpLiteral regExpLiteral (Same d.expression) hands := by
  rw [regExpLiteral_eq]
  apply d.bind (expressionOnly_idle.maintains.at_base holds)
  rintro _ _ apart' p' q' run _ held
  have same : p'.lookahead = some t := by
    cases run
    exact looked
  have held : d.Holds s hands apart' p' q' := d.recalled (.of_mem (by simp)) held
  apply d.bind (d.rescan held same isSlash)
  rintro r r' _ _ _ _ ⟨pattern, flags, raw⟩ held'
  rw [← pattern, ← flags, ← raw]
  have made := @expression_literal d (.regExp r.pattern r.flags) r.raw
  exact d.pure (d.recalled (.of_mem fun _ => by simp_all) held') ⟨rfl, made⟩ ⟨rfl, made⟩

theorem expressionFrom_reads {m n : ParseM Node} (reads : d.Reads s m n) :
    d.Reads s (expressionFrom m) (expressionFrom n) := by
  refine .bind reads.isolated fun first closed => .fork ?_ ?_
  · refine .pass (moreExpressions_takes reads.isolated closed) fun list all => ?_
    exact .wrap rfl (map_snd_bare _) all
  · exact .pure closed .refl

theorem dottedName_upholds :
    d.Upholds s dottedName dottedName fun node => ∃ text, node = .identifier text := by
  refine .taking fun t u known same => ?_
  rw [same]
  split
  next name _ => exact .pure ⟨name, rfl⟩ .nil
  next => exact .unexpected known

theorem dottedMember_upholds :
    d.Upholds s dottedMember dottedMember fun node => ∃ text, node = .identifier text :=
  .skip <| dottedName_upholds

instance targetOnly_idle : d.Idle targetOnly :=
  ⟨.modify (fun p => p.unmoved_cover _ _ _)
    (fun concurs => { concurs with bindingElement := rfl, assignmentTarget := rfl }) fun _ _ => id⟩

theorem restoring_upholds {m n : ParseM α} {answers : α → Prop} (change : Context → Context)
    (restore : Context → Context → Context) (same : ∀ c, restore c (change c) = c)
    (upholds : d.Upholds { s with context := change s.context } m n answers) :
    d.Upholds s (do
      let outer ← context
      changeContext change
      let result ← m
      changeContext (restore outer)
      pure result) (do
      let outer ← context
      changeContext change
      let result ← n
      changeContext (restore outer)
      pure result) answers :=
  .learn context_upholds fun outer bound => d.scopes.undone change (restore outer) id
    (fun binding => by rw [bound binding, same]) (fun _ => .refl) upholds

theorem withIn_upholds {m n : ParseM α} {answers : α → Prop} (upholds : ∀ s, d.Upholds s m n answers) :
    d.Upholds s (withIn m) (withIn n) answers :=
  restoring_upholds _ (fun outer c => { c with allowIn := outer.allowIn }) (fun _ => rfl) (upholds _)

instance checkUpdate_idle (argument : Node) (message : Message) : d.Idle (checkUpdate argument message) where
  maintains := by
    refine .after fun _ => .ite .complain (.get fun p q seen => ?_)
    rw [seen.assignmentTarget]
    exact .ite (.pure trivial .nil) .complain

instance checkUnary_idle (operator : UnaryOperator) (argument : Node) : d.Idle (checkUnary operator argument) :=
  ⟨.after fun _ => .ite .complain (.pure trivial .nil)⟩

theorem reduce_zero (stack : List Pending) (right : Node) :
    reduce 0 stack right = ([], reduceAll stack right) := by
  induction stack generalizing right with
  | nil => rfl
  | cons pending rest ih =>
    rw [reduce, if_pos (Nat.zero_le _), ih]
    rfl

/-- Operands that wait, and the last one. -/
def Waits (d : Discipline) (state : List Pending × Node) : Prop :=
  (∀ pending ∈ state.1, d.expression pending.left) ∧ d.expression state.2

theorem reduce_waits (precedence : Nat) {stack : List Pending} {right : Node}
    (waits : d.Waits (stack, right)) : d.Waits (reduce precedence stack right) ∧
      Covers (trees (stack, right)) (trees (reduce precedence stack right)) := by
  induction stack generalizing right with
  | nil => exact ⟨waits, .refl⟩
  | cons pending rest ih =>
    obtain ⟨first, others⟩ := List.forall_mem_cons.mp waits.1
    unfold reduce
    split
    · have joined : d.expression (.binaryExpression pending.operator pending.left right) :=
        d.plain rfl (by simpa [usedParts, parts] using ⟨first, waits.2⟩)
      obtain ⟨waits', kept⟩ := ih ⟨others, joined⟩
      refine ⟨waits', .trans ?_ kept⟩
      have moved : Covers (trees (pending :: rest, right))
          (rest.map Pending.left ++ [pending.left, right]) := .of_mem (by simp [trees]; grind)
      exact moved.trans (.append _ (.of_parts (by simp [parts])))
    · exact ⟨waits, .refl⟩

theorem reduceAll_waits {stack : List Pending} {right : Node} (waits : d.Waits (stack, right)) :
    d.expression (reduceAll stack right) ∧ Covers (trees (stack, right)) [reduceAll stack right] := by
  have reduced := reduce_waits 0 waits
  rw [reduce_zero] at reduced
  exact ⟨reduced.1.2, reduced.2⟩

instance binaryOperator?_idle : d.Idle binaryOperator? where
  maintains := by
    refine .looking fun t u _ same => .learn context_upholds fun _ _ => ?_
    rw [same]
    exact .pure trivial .nil

/-- A note on the lookahead is the one change of a token that there is. -/
instance notePrecedence_idle (operator : BinaryOperator) : d.Idle (notePrecedence operator) where
  maintains := by
    refine .modify (fun p => ⟨⟨rfl, rfl, rfl, rfl, ?_⟩, rfl, rfl, rfl, rfl⟩) (fun concurs => ?_) fun _ _ => id
    · cases p.lookahead <;> rfl
    · exact ⟨concurs.strict, concurs.context, concurs.bindingElement, concurs.assignmentTarget, concurs.covered⟩

theorem reinterpreted_takes {expression : Node} (closed : d.expression expression) :
    d.Takes s [expression] (reinterpreted expression) (reinterpreted expression) (Same d.expression) := by
  unfold reinterpreted
  split
  next target found => exact .pure (d.target found closed) (.asPattern found)
  next => exact .unsupported

theorem assignmentTarget_takes {first first' : Option Token}
    (known : ∀ t, first = some t → d.token t t) (operator : AssignmentOperator) {expression : Node}
    (closed : d.expression expression) :
    d.Takes s [expression] (assignmentTarget first operator expression)
      (assignmentTarget first' operator expression) (Same d.expression) := by
  refine .get fun p q seen => ?_
  rw [seen.assignmentTarget]
  refine .ite (.after fun _ => .ite (.complainOf known) ?_) .complain
  exact .ite (reinterpreted_takes closed) (.skip <| .pure closed .refl)

variable (trusts : d.Trusts reader reader')
include trusts

theorem initializer_reads : d.Reads s (initializer reader) (initializer reader') :=
  .skip <| trusts.assignment.isolated

theorem patternAndDefault_upholds :
    d.Upholds s (patternAndDefault reader) (patternAndDefault reader') fun found =>
      d.name found.1 ∧ ∀ node ∈ found.2, d.expression node := by
  refine .learn pattern_upholds fun name named => .fork ?_ ?_
  · refine .bind (initializer_reads trusts) fun value closed => .pure ⟨named, ?_⟩ .refl
    simpa using closed
  · exact .pure ⟨named, by simp⟩ .nil

/-! ### Functions -/

theorem parameter_takes :
    d.Takes s [] (parameter reader) (parameter reader') fun a b => d.token a.1 b.1 ∧
      Same (fun found => d.name found.1 ∧ ∀ node ∈ found.2, d.expression node) a.2 b.2 := by
  refine .looking fun t u known same => ?_
  rw [same]
  refine .ite .unsupported (.ite (.throw (by simp)) (.bind (patternAndDefault_upholds trusts) ?_))
  exact fun _ met => .give ⟨d.self known, rfl, met⟩ ⟨known, rfl, met⟩ .refl

theorem addParameter_takes {f g : Formals Token} (declares : d.Declares f g) :
    d.Takes s (trees f) (addParameter reader id f) (addParameter reader' id g) d.Declares := by
  refine .bindVia (parameter_takes trusts) ?_
  rintro ⟨t, name, default⟩ ⟨u, _⟩ ⟨known, rfl, named, closed⟩
  refine .after fun strict => .give ?_ ?_ (.of_mem ?_)
  · exact (declares.self.declare strict (d.self known) name).add named closed
  · exact (declares.declare strict known name).add named closed
  · obtain ⟨params, defaults⟩ := f.declare_params strict t name
    simp only [trees, Formals.add, id, params, defaults]
    grind

theorem parameters_takes {restricted restricted' : Option Token}
    (refused : restricted'.isSome → restricted.isSome)
    (known : ∀ t, restricted = some t → d.token t t) :
    d.Takes s [] (parameters reader id restricted) (parameters reader' id restricted') d.Declares := by
  have empty := Declares.empty refused known
  refine .skip (.after fun _ => ?_)
  refine .ite (.passVia (.give empty.self empty .nil) ?next) (.passVia (.repeatedVia ?_ ?_ empty) ?next)
  case next =>
    exact fun f g declares => .skip <| .give declares.self declares .refl
  · exact fun _ _ declares => declares.self
  · intro f g declares
    refine .past d.places.inside fun _ => .ite ?_ (.give (.inr declares.self) (.inr declares) .refl)
    refine .passVia (addParameter_takes trusts declares) fun f g declares => ?_
    refine .fork (.give (.inr declares.self) (.inr declares) .refl) ?_
    exact .skip <| .give (.inl declares.self) (.inl declares) .refl

theorem directives_upholds (loose : s.loose = true) :
    d.Upholds s (directives reader) (directives reader') fun nodes =>
      ∀ node ∈ nodes, ∀ c, d.statement c node := by
  have empty : d.Recalls ([], none) ([], none) := ⟨rfl, rfl, nofun, nofun⟩
  rw [directives_eq, directives_eq]
  refine .repeatedVia (fun _ _ same => ⟨rfl, same.2⟩) (fun state state' recalls => ?_) empty
  rw [directiveRound_eq, directiveRound_eq]
  exact .bindVia (d.places.strings trusts) fun _ _ same => directiveAnswer_takes loose recalls same

theorem statementsFrom_takes {before : List Node}
    (stated : ∀ node ∈ before, d.statement s.context node) :
    d.Takes s before (statementsFrom reader before) (statementsFrom reader' before)
      (Same fun nodes => ∀ node ∈ nodes, d.statement s.context node) := by
  refine .collected _ (fun statements stated => ?_) stated
  refine .past d.places.inside fun _ => .ite ?_ (.pure stated .refl)
  refine .fork (.pure stated .refl) ?_
  exact .bind trusts.listItem fun _ last => .pure (forall_mem_concat stated last) .refl

theorem functionBody_upholds (loose : s.loose = true) :
    d.Upholds s (functionBody reader) (functionBody reader') d.body := by
  refine .skip <| .bind (directives_upholds trusts loose) fun body stated => ?_
  refine .learn context_upholds fun outer bound => ?_
  have inner : d.Takes { s with context := s.context.inBody } body
      (do let nodes ← statementsFrom reader body; expect .closeBrace; pure nodes)
      (do let nodes ← statementsFrom reader' body; expect .closeBrace; pure nodes)
      (Same fun nodes => d.body (.blockStatement nodes)) := by
    refine (statementsFrom_takes trusts fun node member => stated node member _).pass fun _ stated => ?_
    exact .skip <| .pure (d.bodied stated) .refl
  -- Five registers are overwritten, and all five are taken from the outer context again.
  have whole := d.scopes.undone Context.inBody (fun c =>
    { c with
      labels := outer.labels
      inIteration := outer.inIteration
      inSwitch := outer.inSwitch
      inFunctionBody := outer.inFunctionBody
      parenthesizedCount := outer.parenthesizedCount }) Node.blockStatement
    (fun binding => by rw [bound binding]; rfl) (fun _ => .of_parts (by simp [parts])) inner
  simp only [bind_assoc, pure_bind] at whole
  exact whole

theorem functionTail_takes (nameRequired : Bool) :
    d.Takes s [] (functionTail reader nameRequired) (functionTail reader' nameRequired) d.SameFunction := by
  refine .ite (.bindVia functionName_takes ?next) (.fork
    (.bindVia (.give ?_ ?_ .nil) ?next) (.bindVia functionName_takes ?next))
  case next =>
    intro name name' same
    refine .passVia (parameters_takes trusts ?_ ?_) fun f g declares => ?_
    · simp only [Option.isSome_map, same.refused, imp_self]
    · intro t found
      obtain ⟨blame, noted, rfl⟩ := Option.map_eq_some_iff.mp found
      exact same.known blame noted
    have names : name.map (Node.identifier ∘ Prod.fst) = name'.map (Node.identifier ∘ Prod.fst) := by
      rw [← Option.map_map, ← Option.map_map, same.name]
    have named : ∀ node ∈ name.map (Node.identifier ∘ Prod.fst), d.expression node := by
      intro node member
      obtain ⟨found, isName, rfl⟩ := Option.map_eq_some_iff.mp member
      exact d.identifier.mpr (same.named found isName)
    refine .bind (d.scopes.bodies (functionBody_upholds trusts rfl)
      (refuseRestricted_maintains declares _ _)) fun body bodied => .give ?_ ?_ ?_
    · exact ⟨rfl, declares.self, rfl, named, bodied⟩
    · exact ⟨names, declares, rfl, named, bodied⟩
    · exact .of_mem fun _ => List.mem_append_right _
  · exact ⟨rfl, rfl, by simp, by simp⟩
  · exact ⟨rfl, rfl, by simp, by simp⟩

theorem functionDeclaration_reads (nameRequired : Bool) :
    d.Reads s (functionDeclaration reader nameRequired) (functionDeclaration reader' nameRequired) := by
  refine .skip <| .passVia (functionTail_takes trusts nameRequired) ?_
  rintro ⟨name, f, body⟩ ⟨_, g, _⟩ ⟨rfl, declares, rfl, named, bodied⟩
  have mirror : f.Mirror g := declares.mirror
  simp only [← mirror.params, ← mirror.effectiveDefaults]
  refine .built (d.function rfl (declares.head named) bodied) ?_
  exact function_kept name f body

theorem functionExpression_reads :
    d.Reads s (functionExpression reader) (functionExpression reader') := by
  refine .skip <| .passVia (functionTail_takes trusts false) ?_
  rintro ⟨name, f, body⟩ ⟨_, g, _⟩ ⟨rfl, declares, rfl, named, bodied⟩
  have mirror : f.Mirror g := declares.mirror
  simp only [← mirror.params, ← mirror.effectiveDefaults]
  refine .built (d.function rfl (declares.head named) bodied) ?_
  exact function_kept name f body

theorem methodOf_takes {f g : Formals Token} (declares : d.Declares f g) :
    d.Takes s (trees f) (methodOf reader f) (methodOf reader' g) (Same d.expression) := by
  refine .bind (.skip <| d.scopes.bodies
    (functionBody_upholds trusts rfl).isolated (refuseRestricted_maintains declares _ _)) ?_
  intro body bodied
  rw [← declares.mirror.params, ← declares.mirror.effectiveDefaults]
  exact .built (d.function rfl (declares.head (by simp)) bodied) (function_kept none f body)

theorem method_reads : d.Reads s (method reader) (method reader') :=
  .passVia (parameters_takes trusts id nofun) fun _ _ declares => methodOf_takes trusts declares

/-! ### Properties -/

theorem propertyKey_at {apart : Bool} {p q : Parser} {t : Token}
    (holds : d.Holds s hands apart p q) (looked : p.lookahead = some t) :
    d.At s apart p q (propertyKey reader) (propertyKey reader') (Same (d.Keys t.lexeme)) hands := by
  apply d.bind (take_at holds looked)
  rintro given u apart' p' q' _ ⟨rfl, known⟩ held
  refine Takes.at_base (?_ : d.Upholds s _ _ (d.Keys given.lexeme)) (d.recalled (.of_mem (by simp)) held)
  have literals : tokenLiteral? u = tokenLiteral? given := by
    rw [tokenLiteral?, tokenLiteral?, d.lexeme known, d.raw known]
  rw [literals, d.lexeme known]
  split
  next literal found =>
    refine .past (refuseOctalString_maintains known) fun _ => .pure ?_ .nil
    unfold tokenLiteral? at found
    split at found <;> cases found
    all_goals exact ⟨fun _ => expression_literal _ _, fun _ => rfl, fun _ => expression_literal _ _⟩
  next =>
    split
    next name found =>
      -- Only an identifier counts here, other words are mere keys.
      refine .pure ⟨fun bracket => ?_, fun _ => rfl, fun word => d.identifier.mpr ?_⟩ .nil
      · simp [bracket, Lexeme.name?] at found
      · cases lexeme : given.lexeme <;> rw [lexeme] at word found
        case identifier => exact d.named known (lexeme.trans (congrArg _ (Option.some.inj found)))
        all_goals simp [Lexeme.kind] at word found
    next =>
      refine .dite (fun bracket => ?_) fun _ => .unexpected known
      refine .bind trusts.assignment.isolated fun key closed => ?_
      refine .skip <| .pure ?_ .refl
      exact ⟨fun _ => closed, fun other => absurd bracket other, fun _ => closed⟩

/-- A computation that looks at the bracket before a key and then reads the key. -/
theorem keyed_at {apart : Bool} {p q : Parser} {base : List Node}
    {f g : Bool → Node → ParseM α} {alike : α → α → Prop} (holds : d.Holds s base apart p q)
    (next : ∀ computed key, d.Keyed computed key →
      (∀ t, p.lookahead = some t → d.Keys t.lexeme key) →
      d.Takes s [key] (f computed key) (g computed key) alike) :
    d.At s apart p q (do
      let computed ← atMark .openBracket
      let key ← propertyKey reader
      f computed key) (do
      let computed ← atMark .openBracket
      let key ← propertyKey reader'
      g computed key) alike base := by
  simp only [atMark, bind_assoc, pure_bind]
  apply lookahead_at holds
  intro t u apart' q' looked known held
  rw [d.lexeme known]
  apply d.bind (propertyKey_at trusts held looked)
  rintro key _ _ _ _ _ ⟨rfl, keys⟩ held'
  refine next _ key ⟨fun found => ?_, fun found => ?_⟩ (fun other looked' => ?_) _ _ _ _ held'
  · exact keys.computed (of_decide_eq_true found)
  · exact keys.isKey (of_decide_eq_false found)
  · rwa [Option.some.inj (looked'.symm.trans looked)]

theorem keyed_takes {f g : Bool → Node → ParseM α}
    {alike : α → α → Prop} (next : ∀ computed key, d.Keyed computed key →
      d.Takes s [key] (f computed key) (g computed key) alike) :
    d.Takes s [] (do
      let computed ← atMark .openBracket
      let key ← propertyKey reader
      f computed key) (do
      let computed ← atMark .openBracket
      let key ← propertyKey reader'
      g computed key) alike :=
  fun base _ _ _ holds => keyed_at trusts (by rwa [List.append_nil] at holds)
    fun computed key keyed _ => next computed key keyed

theorem getter_reads : d.Reads s (getter reader) (getter reader') := by
  refine keyed_takes trusts fun computed key keyed => ?_
  refine .skip (.skip ?_)
  refine .bind (methodOf_takes trusts (.empty id (by simp))) fun value closed => ?_
  exact .built (d.property keyed.1 keyed.2 closed) (by simp [parts])

theorem setter_reads : d.Reads s (setter reader) (setter reader') := by
  refine keyed_takes trusts fun computed key keyed => ?_
  refine .skip <| .fork ?_ ?_
  · exact .looking fun _ _ known _ => .unexpected known
  · refine .bindVia (addParameter_takes trusts (.empty id (by simp))) fun f g declares => ?_
    refine .skip <| .via (methodOf_takes trusts declares) .refl ?_
    rintro value _ ⟨rfl, closed⟩
    exact .built (d.property keyed.1 keyed.2 closed) (by simp [parts])

theorem methodDefinition?_upholds {first : Lexeme} {key : Node}
    {computed : Bool} (keys : d.Keys first key) (keyed : d.Keyed computed key) :
    d.Upholds s (methodDefinition? reader first key computed)
      (methodDefinition? reader' first key computed)
      fun found => ∀ node ∈ found, d.expression node ∧ Covers [key] [node] := by
  have accessor {m n : ParseM Node} (reads : d.Reads s m n) {name : Text}
      (isWord : first = .identifier name) : d.Upholds s (some <$> m) (some <$> n)
        fun found => ∀ node ∈ found, d.expression node ∧ Covers [key] [node] := by
    have isKey : key.isKey = true := keys.isKey (by simp [isWord])
    exact .optional (reads.imp fun node closed => ⟨closed, .key isKey⟩)
  have absent : d.Upholds s (pure none) (pure none) fun found : Option Node =>
      ∀ node ∈ found, d.expression node ∧ Covers [key] [node] := .missing
  refine .joined (fun next => .dite (fun isGet => ?_) fun _ => .dite (fun isSet => ?_)
    fun _ => absent.bind next) ?_
  · refine .fork ?_ (absent.bind next)
    exact (accessor (getter_reads trusts) isGet).bind next
  · refine .fork ?_ (absent.bind next)
    exact (accessor (setter_reads trusts) isSet).bind next
  intro found met
  cases found with
  | some node => exact .pure met .refl
  | none =>
    refine .fork ?_ (.pure (by simp) .nil)
    refine .bind (method_reads trusts) fun value closed => .pure ?_ (.of_parts (by simp [parts]))
    have property := @d.property .init key value computed true false keyed.1 keyed.2 closed
    simpa using ⟨property, .of_parts (by simp [parts])⟩

theorem shorthand_takes {computed : Bool} {key : Node}
    (keyed : d.Keyed computed key) (closed : d.expression key) :
    d.Takes s [key] (shorthand reader key computed) (shorthand reader' key computed)
      (Same d.expression) := by
  refine .fork (.looking fun t u known _ => ?_) ?_
  · refine .past (.modifyBoth (fun p => p.unmoved_cover _ _ _) (fun p => p.unmoved_cover _ _ _)
      (fun concurs => { concurs with covered := rfl }) ?_) fun _ => ?_
    · rintro p _ _ ⟨⟩
      exact d.self known
    refine .bind (initializer_reads trusts) fun value valued => .pure (d.property keyed.1 keyed.2 ?_) ?_
    · exact d.plain rfl (by simp [usedParts, parts, closed, valued])
    · have pattern : Covers [key, value] [.assignmentPattern key value] := .of_parts (by simp [parts])
      exact pattern.trans (.of_parts (by simp [parts]))
  · exact .built (d.property keyed.1 keyed.2 closed) (by simp [parts])

theorem property_reads : d.Reads s (property reader) (property reader') := by
  intro base apart p q holds
  rw [List.append_nil] at holds
  apply lookahead_at holds
  intro t u apart' q' looked known held
  rw [d.lexeme known]
  refine keyed_at trusts held fun computed key keyed keys => ?_
  refine .bind (methodDefinition?_upholds trusts (keys t looked) keyed) fun found met => ?_
  cases found with
  | some node => exact .pure (met node rfl).1 (.join (met node rfl).2 .refl)
  | none =>
    refine .fork (.skip ?_) ?_
    · refine .bind trusts.assignment.inherited fun value closed => ?_
      exact .built (d.property keyed.1 keyed.2 closed) (by simp [parts])
    · split
      next name lexeme =>
        -- The word that the property begins with is its value as well.
        exact shorthand_takes trusts keyed ((keys t looked).word (by rw [lexeme]; rfl))
      next => exact .looking fun _ _ known _ => .unexpected known

theorem objectInitializer_reads : d.Reads s (objectInitializer reader) (objectInitializer reader') := by
  refine .skip <| .pass
    (.collected (fun properties => ∀ node ∈ properties, d.expression node) ?_ (by simp)) ?_
  · intro properties closed
    refine .fork (.pure closed .refl) ?_
    refine .bind (property_reads trusts) fun next last => ?_
    have all := forall_mem_concat closed last
    refine .fork (.pure all .refl) ?_
    exact .skip <| .pure all .refl
  · intro properties closed
    refine .skip <| .built (d.plain rfl ?_) (by simp [parts])
    simpa [usedParts, parts] using closed

/-! ### Primary expressions -/

theorem arrayInitializer_reads : d.Reads s (arrayInitializer reader) (arrayInitializer reader') := by
  let holds (elements : List (Option Node)) : Prop :=
    ∀ element ∈ elements, ∀ node ∈ element, d.expression node
  have empty : holds [] := nofun
  refine .skip <| .pass (.collected holds ?_ empty) ?_
  · refine fun elements closed => .looking fun t u _ same => ?_
    rw [same]
    split
    · exact .pure closed .refl
    · refine .skip <| .pure (forall_mem_concat closed (by simp)) (.of_mem ?_)
      simp [trees]
    · exact .skip <| .unsupported
    · refine .bind trusts.assignment.inherited fun element last => ?_
      have all : holds (elements ++ [some element]) := forall_mem_concat closed (by simpa using last)
      have kept : Covers (trees elements ++ trees element) (trees (elements ++ [some element])) :=
        .of_mem (by simp)
      refine .fork (.pure all kept) ?_
      exact .skip <| .pure all kept
  · refine fun elements closed => .skip <| .wrap rfl (map_snd_bare _) ?_
    intro node member
    exact closed (some node) (by simpa using member) node rfl

theorem group_reads : d.Reads s (group reader) (group reader') := by
  have others : d.Reads s (groupMember reader) (groupMember reader') :=
    .fork .unsupported trusts.assignment.inherited
  have untargeted : d.Maintains s (modify fun p => { p with assignmentTarget := some false })
      (modify fun p => { p with assignmentTarget := some false }) :=
    .modify (fun p => p.unmoved_cover _ _ _) (fun concurs => { concurs with assignmentTarget := rfl })
      fun _ _ => id
  refine .skip <| .fork .unsupported ?_
  refine .fork .unsupported (.past (unbound_maintains _) fun _ => ?_)
  refine .bind trusts.assignment.inherited fun first closed => .after fun _ => ?_
  refine .joined (fun next => .ite ?_ (.pass (.pure closed .refl) next)) ?_
  · refine .past untargeted fun _ => .pass (moreExpressions_takes others closed) fun list all => ?_
    exact .pass (.wrap rfl (map_snd_bare _) all) next
  · refine fun whole closed => .skip (.after fun _ => ?_)
    exact .ite .unsupported (.past (unbound_maintains _) fun _ => .pure closed .refl)

theorem keywordExpression_reads (word : Keyword) :
    d.Reads s (keywordExpression reader word) (keywordExpression reader' word) := by
  refine .skip ?_
  split
  · exact functionExpression_reads trusts
  · exact .skip <| .wrap rfl rfl (by simp)
  · exact .unsupported
  · exact .taking fun _ _ known _ => .unexpected known

theorem primary_reads : d.Reads s (primary reader) (primary reader') := by
  intro base apart p q holds
  rw [List.append_nil] at holds
  apply lookahead_at holds
  intro t u apart' q' looked known held
  rw [d.lexeme known, d.raw known]
  by_cases isSlash : t.IsSlash
  · rcases id isSlash with slash | slash
    all_goals
      simp only [slash]
      exact regExpLiteral_at held looked isSlash
  refine Takes.at_base (?_ : d.Reads s _ _) held
  have literal (value : Literal) (raw : Text) : d.Reads s (do drop; pure (.literal value raw))
      (do drop; pure (.literal value raw)) :=
    .skip <| .pure (expression_literal _ _) .nil
  split
  · exact .past (unbound_maintains _) fun _ => (group_reads trusts).inherited
  · exact (arrayInitializer_reads trusts).inherited
  · exact (objectInitializer_reads trusts).inherited
  next name lexeme => exact .skip <| .pure (d.identifier.mpr (d.named known lexeme)) .nil
  · refine .skip ?_
    exact .past (refuseOctalString_maintains known) fun _ => literal _ _
  · exact .skip <| literal _ _
  · exact keywordExpression_reads trusts _
  · exact .past (unbound_maintains _) fun _ => literal _ _
  · exact .skip <| literal _ _
  next slash => exact absurd (.inl slash) isSlash
  next slashAssign => exact absurd (.inr slashAssign) isSlash
  · exact templateLiteral_takes
  · exact .taking fun _ _ known _ => .unexpected known
  · exact .taking fun _ _ known _ => .unexpected known

/-! ### Members and calls -/

theorem arguments_readsAll : d.ReadsAll s (arguments reader) (arguments reader') := by
  have empty : ∀ node ∈ ([] : List Node), d.expression node := by simp
  refine .skip (.after fun _ => ?_)
  refine .ite (.pass (.pure empty .nil) ?next) (.pass
    (.collected (fun args => ∀ node ∈ args, d.expression node) (fun args closed => ?_) empty) ?next)
  case next => exact fun args closed => .skip <| .pure closed .refl
  refine .past d.places.inside fun _ => .ite ?_ (.pure closed .refl)
  refine .bind trusts.assignment.isolated fun next last => ?_
  have all := forall_mem_concat closed last
  refine .fork (.pure all .refl) ?_
  exact .skip <| .pure all .refl

theorem computedMember_reads : d.Reads s (computedMember reader) (computedMember reader') := by
  refine .skip ?_
  refine .bind (expressionFrom_reads trusts.assignment).isolated fun key closed => ?_
  exact .skip <| .pure closed .refl

theorem newExpression_reads : d.Reads s (newExpression reader) (newExpression reader') := by
  refine .skip <| .bind trusts.leftHandSide.isolated ?_
  refine fun callee closed => .after fun _ => ?_
  refine .ite (.bind (arguments_readsAll trusts) ?next) (.bind (.pure (by simp) .nil) ?next)
  refine fun args all => .skip <| .wrap rfl (map_snd_bare _) ?_
  exact List.forall_mem_cons.mpr ⟨closed, all⟩

theorem head_reads : d.Reads s (head reader) (head reader') := by
  refine .looking fun t u _ same => .learn context_upholds fun _ _ => ?_
  rw [same]
  refine .ite (.skip <| .unsupported) ?_
  exact .inherited (.ite (newExpression_reads trusts) (primary_reads trusts))

theorem suffixes_takes (allowCall : Bool) {start : Node}
    (closed : d.expression start) : d.Takes s [start] (suffixes reader allowCall start)
      (suffixes reader' allowCall start) (Same d.expression) := by
  refine .collected d.expression (fun expression closed => .looking fun t u _ same => ?_) closed
  rw [same]
  split
  · refine .skip <| .bind dottedMember_upholds ?_
    rintro _ ⟨text, rfl⟩
    exact .pure (d.member closed) (.of_parts (by simp [parts]))
  · refine .ite (.skip ?_) (.pure closed .refl)
    refine .bind (arguments_readsAll trusts) fun args all => .pure (d.plain rfl ?_) (.of_parts ?_)
    · simpa [usedParts, parts] using ⟨closed, all⟩
    · simp [parts]
  · refine .skip <| .bind (computedMember_reads trusts) fun key keyed => ?_
    refine .pure (d.plain rfl ?_) (.of_parts (by simp [parts]))
    simp [usedParts, parts, closed, keyed]
  · exact templateLiteral_takes
  · exact .pure closed .refl

theorem leftHandSideAllowCall_reads :
    d.Reads s (leftHandSideAllowCall reader) (leftHandSideAllowCall reader') :=
  withIn_upholds fun _ => .bind (head_reads trusts) fun _ closed => suffixes_takes trusts true closed

theorem leftHandSide_reads : d.Reads s (leftHandSide reader) (leftHandSide reader') := by
  refine .learn context_upholds fun _ _ => .ite ?_ (.throw (by simp))
  exact .bind (head_reads trusts) fun _ closed => suffixes_takes trusts false closed

/-! ### Operations -/

theorem postfixExpression_reads : d.Reads s (postfixExpression reader) (postfixExpression reader') := by
  refine .bind (leftHandSideAllowCall_reads trusts).inherited fun argument closed => ?_
  refine .past d.places.afterLineBreak fun _ => .ite (.pure closed .refl) (.looking fun t u _ same => ?_)
  rw [same]
  split
  · refine .skip (.skip ?_)
    exact .skip <| .wrap rfl rfl (by simpa using closed)
  · exact .pure closed .refl

theorem unaryExpression_reads : d.Reads s (unaryExpression reader) (unaryExpression reader') := by
  refine .looking fun t u _ same => ?_
  rw [same]
  dsimp only
  split
  · refine .skip <| .bind trusts.unary.inherited fun argument closed => ?_
    refine .skip (.skip ?_)
    exact .wrap rfl rfl (by simpa using closed)
  · split
    · refine .skip <| .bind trusts.unary.inherited fun argument closed => ?_
      refine .skip (.skip ?_)
      exact .wrap rfl rfl (by simpa using closed)
    · exact postfixExpression_reads trusts

theorem binaryExpression_reads : d.Reads s (binaryExpression reader) (binaryExpression reader') := by
  refine .bind (unaryExpression_reads trusts).inherited fun first first_closed => ?_
  refine .after fun found => ?_
  cases found with
  | none => exact .pure first_closed .refl
  | some operator =>
    refine .skip (.skip ?_)
    refine .skip ?_
    refine .bind (unaryExpression_reads trusts).isolated fun second second_closed => ?_
    have start : d.Waits ([{ left := first, operator }], second) :=
      ⟨by simpa using first_closed, second_closed⟩
    refine .repeated d.Waits ?_ start
    rintro ⟨stack, right⟩ waits
    refine .after fun found => ?_
    cases found with
    | none => exact .pure (reduceAll_waits waits).1 (reduceAll_waits waits).2
    | some operator =>
      obtain ⟨reduced, kept⟩ := reduce_waits operator.precedence waits
      refine .of_covers kept (.skip ?_)
      refine .bind (unaryExpression_reads trusts).isolated fun next next_closed => .pure ?_ (.of_mem ?_)
      · exact ⟨List.forall_mem_cons.mpr ⟨reduced.2, reduced.1⟩, next_closed⟩
      · simp [trees]
        grind

theorem conditionalExpression_reads :
    d.Reads s (conditionalExpression reader) (conditionalExpression reader') := by
  refine .bind (binaryExpression_reads trusts).inherited fun test test_closed => ?_
  refine .fork (.skip ?_) (.pure test_closed .refl)
  refine .bind (withIn_upholds fun s => trusts.assignment.isolated) fun yes yes_closed => ?_
  refine .skip <| .bind trusts.assignment.isolated fun no no_closed => ?_
  refine .skip <| .wrap rfl rfl ?_
  simp [test_closed, yes_closed, no_closed]

theorem assignmentExpression_reads :
    d.Reads s (assignmentExpression reader) (assignmentExpression reader') := by
  refine .get fun before before' seen => ?_
  have known (t : Token) (looked : before.lookahead = some t) : d.token t t :=
    d.self (seen.lookahead t looked).choose_spec.2
  refine .bind (conditionalExpression_reads trusts) fun expression closed => ?_
  refine .fork .unsupported (.looking fun t u _ same => ?_)
  rw [same]
  split
  · exact .pure closed .refl
  · refine .pass (assignmentTarget_takes known _ closed) fun left left_closed => ?_
    refine .skip <| .bind trusts.assignment.isolated fun right right_closed => ?_
    refine .past (.modify (fun p => p.unmoved_cover _ _ _) (fun concurs => { concurs with covered := rfl })
      fun _ _ => nofun) fun _ => .wrap rfl rfl ?_
    simp [left_closed, right_closed]

theorem expression_reads : d.Reads s (expression reader) (expression reader') :=
  expressionFrom_reads (assignmentExpression_reads trusts)

end Discipline

end EcmaScript
