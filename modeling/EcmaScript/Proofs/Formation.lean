import EcmaScript.Proofs.Occurrence
import EcmaScript.Proofs.OctalEscapes

/-!
A grammar of syntax trees. It says which nodes may stand in which places, and what strict code rules out
there; a tree that follows it is formed. An object with a default among its properties makes sense as a
target only. Such an object may be left in what an assignment has on its left and a `for` head at its
start, as far as their parts share the registers of the whole; a part that is read alone is formed under
a true condition, there as elsewhere, and has none.
-/

namespace EcmaScript

open List

/-- What is known of the code that a tree comes from: that all of it is strict, and that statements of
the kind `pyimport` may occur in it. -/
structure Regime where
  strict : Prop
  pyimport : Prop

/-- The kinds of places in a tree. -/
inductive Category where
  | program | statement | clause | handler | declarator
  | expression | property | default | target | targetProperty
  deriving DecidableEq, Repr

/-- The places whose nodes hold statements in the bodies of functions only. -/
def Category.isInert : Category → Bool
  | declarator | expression | property | default | target | targetProperty => true
  | program | statement | clause | handler => false

namespace Node

/-- What the registers of the cover grammar let pass for a target of an update or of an assignment with
an operation: not only names and members, but arrays and objects, functions, the literals `true` and
`false`, and plain assignments. -/
def passesForTarget : Node → Bool
  | identifier _ | memberExpression .. | arrayExpression _ | objectExpression _
  | functionExpression .. | literal (.boolean _) _ | assignmentExpression .assign _ _ => true
  | _ => false

def isDefaultClause : Node → Bool
  | switchCase none _ => true
  | _ => false

end Node

/-- The names that a function of strict code may have: none of them is restricted, and no two of its
parameters are the same. -/
def LawfulNames (name : Option Text) (params : List Text) : Prop :=
  (∀ n ∈ name, n.isRestricted = false) ∧ (∀ n ∈ params, n.isRestricted = false) ∧ params.Nodup

/-- How strict code may spell a literal: no string of it has an octal escape. -/
def LawfulSpelling (value : Literal) (raw : Text) : Prop :=
  match value with
  | .string _ => raw.hasOctalEscape = false
  | _ => True

open Node in
/-- `Formed r c k n`: the node may stand in a place of the kind `k` in code under `r`. If `c` holds, no
default shows that only a target may hold. -/
inductive Formed (r : Regime) : Prop → Category → Node → Prop where
  | program {c body} (statements : ∀ n ∈ body, Formed r True .statement n) :
    Formed r c .program (program body)
  -- Statements.
  | emptyStatement {c} : Formed r c .statement emptyStatement
  | debuggerStatement {c} : Formed r c .statement debuggerStatement
  | blockStatement {c body} (statements : ∀ n ∈ body, Formed r True .statement n) :
    Formed r c .statement (blockStatement body)
  | expressionStatement {c e} (expression : Formed r True .expression e) :
    Formed r c .statement (expressionStatement e)
  | ifStatement {c e s other} (test : Formed r True .expression e) (consequent : Formed r True .statement s)
    (alternate : ∀ n ∈ other, Formed r True .statement n) : Formed r c .statement (ifStatement e s other)
  | doWhileStatement {c e s} (body : Formed r True .statement s) (test : Formed r True .expression e) :
    Formed r c .statement (doWhileStatement s e)
  | whileStatement {c e s} (test : Formed r True .expression e) (body : Formed r True .statement s) :
    Formed r c .statement (whileStatement e s)
  | forStatement {c i t u s} (init : ∀ n ∈ i, Formed r False .expression n)
    (test : ∀ n ∈ t, Formed r True .expression n) (update : ∀ n ∈ u, Formed r True .expression n)
    (body : Formed r True .statement s) : Formed r c .statement (forStatement i t u s)
  | forDeclaration {c t u s declarations} (kind : DeclarationKind)
    (declarators : ∀ n ∈ declarations, Formed r True .declarator n)
    (test : ∀ n ∈ t, Formed r True .expression n) (update : ∀ n ∈ u, Formed r True .expression n)
    (body : Formed r True .statement s) :
    Formed r c .statement (forStatement (some (variableDeclaration kind declarations)) t u s)
  | forInStatement {c a e s} (left : Formed r False .target a) (right : Formed r True .expression e)
    (body : Formed r True .statement s) : Formed r c .statement (forInStatement a e s)
  | forInDeclaration {c a e s} (kind : DeclarationKind) (left : Formed r True .declarator a)
    (right : Formed r True .expression e) (body : Formed r True .statement s) :
    Formed r c .statement (forInStatement (variableDeclaration kind [a]) e s)
  | continueStatement {c} (label : Option Text) :
    Formed r c .statement (continueStatement (label.map identifier))
  | breakStatement {c} (label : Option Text) :
    Formed r c .statement (breakStatement (label.map identifier))
  | returnStatement {c e} (argument : ∀ n ∈ e, Formed r True .expression n) :
    Formed r c .statement (returnStatement e)
  | withStatement {c e s} (sloppy : ¬ r.strict) (object : Formed r True .expression e)
    (body : Formed r True .statement s) : Formed r c .statement (withStatement e s)
  | switchStatement {c e clauses} (discriminant : Formed r True .expression e)
    (cases : ∀ n ∈ clauses, Formed r True .clause n) (single : clauses.countP isDefaultClause ≤ 1) :
    Formed r c .statement (switchStatement e clauses)
  | switchCase {c e body} (test : ∀ n ∈ e, Formed r True .expression n)
    (consequent : ∀ n ∈ body, Formed r True .statement n) : Formed r c .clause (switchCase e body)
  | labeledStatement {c s} (name : Text) (body : Formed r True .statement s) :
    Formed r c .statement (labeledStatement (identifier name) s)
  | throwStatement {c e} (argument : Formed r True .expression e) :
    Formed r c .statement (throwStatement e)
  | tryStatement {c body h} {final : Option (List Node)} (block : ∀ n ∈ body, Formed r True .statement n)
    (handler : ∀ n ∈ h, Formed r True .handler n)
    (finalizer : ∀ body ∈ final, ∀ n ∈ body, Formed r True .statement n) (handled : h.isSome ∨ final.isSome) :
    Formed r c .statement (tryStatement (blockStatement body) h (final.map blockStatement))
  | catchClause {c name body} (lawful : r.strict → name.isRestricted = false)
    (block : ∀ n ∈ body, Formed r True .statement n) :
    Formed r c .handler (catchClause (identifier name) (blockStatement body))
  | variableDeclaration {c declarations} (kind : DeclarationKind)
    (declarators : ∀ n ∈ declarations, Formed r True .declarator n) :
    Formed r c .statement (variableDeclaration kind declarations)
  | variableDeclarator {c name e} (lawful : r.strict → name.isRestricted = false)
    (init : ∀ n ∈ e, Formed r True .expression n) :
    Formed r c .declarator (variableDeclarator (identifier name) e)
  | functionDeclaration {c name params defaults body} (lawful : r.strict → LawfulNames name params)
    (values : ∀ n, some n ∈ defaults → Formed r True .expression n)
    (block : ∀ n ∈ body, Formed r True .statement n) :
    Formed r c .statement (functionDeclaration (name.map identifier) (params.map identifier) defaults
      (blockStatement body))
  | pyimportStatement {c} (name : Text) (allowed : r.pyimport) :
    Formed r c .statement (pyimportStatement (identifier name))
  -- Expressions.
  | thisExpression {c} : Formed r c .expression thisExpression
  | identifier {c} (name : Text) : Formed r c .expression (identifier name)
  | literal {c value raw} (shown : value.ShownBy raw) (lawful : r.strict → LawfulSpelling value raw) :
    Formed r c .expression (literal value raw)
  | arrayExpression {c elements} (parts : ∀ n, some n ∈ elements → Formed r c .expression n) :
    Formed r c .expression (arrayExpression elements)
  | objectExpression {c properties} (parts : ∀ n ∈ properties, Formed r c .property n) :
    Formed r c .expression (objectExpression properties)
  | functionExpression {c name params defaults body} (lawful : r.strict → LawfulNames name params)
    (values : ∀ n, some n ∈ defaults → Formed r True .expression n)
    (block : ∀ n ∈ body, Formed r True .statement n) :
    Formed r c .expression (functionExpression (name.map identifier) (params.map identifier) defaults
      (blockStatement body))
  | unaryExpression {c operator e} (lawful : r.strict → operator = .delete → e.name? = none)
    (argument : Formed r c .expression e) : Formed r c .expression (unaryExpression operator e)
  | updateExpression {c e} (operator : UpdateOperator) (prefixed : Bool)
    (lawful : r.strict → e.isRestrictedName = false) (passes : e.passesForTarget = true)
    (argument : Formed r c .expression e) :
    Formed r c .expression (updateExpression operator prefixed e)
  | binaryExpression {c a b} (operator : BinaryOperator) (left : Formed r c .expression a)
    (right : Formed r True .expression b) : Formed r c .expression (binaryExpression operator a b)
  | assignmentExpression {c a b} (lawful : r.strict → a.isRestrictedName = false)
    (left : Formed r False .target a) (right : Formed r True .expression b) :
    Formed r c .expression (assignmentExpression .assign a b)
  | operationExpression {c operator a b} (compound : operator ≠ .assign)
    (lawful : r.strict → a.isRestrictedName = false) (passes : a.passesForTarget = true)
    (left : Formed r False .expression a) (right : Formed r True .expression b) :
    Formed r c .expression (assignmentExpression operator a b)
  | conditionalExpression {c a b e} (test : Formed r c .expression a)
    (consequent : Formed r True .expression b) (alternate : Formed r True .expression e) :
    Formed r c .expression (conditionalExpression a b e)
  | sequenceExpression {c expressions} (parts : ∀ n ∈ expressions, Formed r c .expression n) :
    Formed r c .expression (sequenceExpression expressions)
  | dottedMember {c e} (object : Formed r c .expression e) (name : Text) :
    Formed r c .expression (memberExpression false e (identifier name))
  | computedMember {c a b} (object : Formed r c .expression a) (key : Formed r True .expression b) :
    Formed r c .expression (memberExpression true a b)
  | callExpression {c e arguments} (callee : Formed r c .expression e)
    (parts : ∀ n ∈ arguments, Formed r True .expression n) :
    Formed r c .expression (callExpression e arguments)
  | newExpression {c e arguments} (callee : Formed r True .expression e)
    (parts : ∀ n ∈ arguments, Formed r True .expression n) :
    Formed r c .expression (newExpression e arguments)
  -- Properties of objects.
  | dataProperty {c a b} {computed method shorthand : Bool} (key : Formed r True .expression a)
    (value : Formed r c .expression b) :
    Formed r c .property (property .init a computed b method shorthand)
  | getter {c a name defaults body} {computed : Bool} (key : Formed r True .expression a)
    (value : Formed r c .expression (functionExpression name [] defaults body)) :
    Formed r c .property (property .get a computed (functionExpression name [] defaults body) false false)
  | setter {c a name param defaults body} {computed : Bool} (key : Formed r True .expression a)
    (value : Formed r c .expression (functionExpression name [param] defaults body)) :
    Formed r c .property
      (property .set a computed (functionExpression name [param] defaults body) false false)
  | coverProperty {c e} {name : Text} {computed : Bool} (shown : ¬ c) (value : Formed r c .default e) :
    Formed r c .property (property .init (identifier name) computed e false true)
  | assignmentPattern {c e} (name : Text) (value : Formed r True .expression e) :
    Formed r c .default (assignmentPattern (identifier name) e)
  -- Targets of assignments.
  | nameTarget {c} (name : Text) : Formed r c .target (identifier name)
  | memberTarget {c a b} {computed : Bool}
    (member : Formed r c .expression (memberExpression computed a b)) :
    Formed r c .target (memberExpression computed a b)
  | arrayPattern {c elements} (parts : ∀ n, some n ∈ elements → Formed r c .target n) :
    Formed r c .target (arrayPattern elements)
  | objectPattern {c properties} (parts : ∀ n ∈ properties, Formed r c .targetProperty n) :
    Formed r c .target (objectPattern properties)
  | targetProperty {c a b} {computed method shorthand : Bool} (key : Formed r True .expression a)
    (value : Formed r c .target b) :
    Formed r c .targetProperty (property .init a computed b method shorthand)
  | defaultProperty {c e} {name : Text} {computed : Bool} (value : Formed r c .default e) :
    Formed r c .targetProperty (property .init (identifier name) computed e false true)

variable {r : Regime} {c : Prop} {k : Category} {n m : Node}

/-- No default shows in the node. -/
abbrev Proper (r : Regime) : Category → Node → Prop :=
  Formed r True

/-- The less is known to hold, the more may show. -/
theorem Formed.mono {d : Prop} (formed : Formed r c k n) (implies : d → c) : Formed r d k n := by
  induction formed with
  | coverProperty shown value ih => exact .coverProperty (shown ∘ implies) (ih implies)
  | forDeclaration kind declarators test update body => exact .forDeclaration kind declarators test update body
  | forInDeclaration kind left right body => exact .forInDeclaration kind left right body
  | defaultProperty value ih => exact .defaultProperty (ih implies)
  | _ => constructor <;> first | assumption | simp_all

theorem Proper.under (formed : Proper r k n) : Formed r c k n :=
  formed.mono fun _ => trivial

/-! ### Targets -/

/-- A target has the name that the expression had. -/
theorem Node.name?_asPattern? {target : Node} (found : n.asPattern? = some target) :
    target.name? = n.name? := by
  cases asPattern?_eq_some_iff.mp found <;> rfl

mutual

theorem Formed.retypes {e t : Node} (formed : Formed r c .expression e) (retypes : e.Retypes t) :
    Formed r c .target t := by
  cases retypes with
  | plain isPlain =>
    cases formed with
    | identifier name => exact .nameTarget name
    | dottedMember object name => exact .memberTarget (.dottedMember object name)
    | computedMember object key => exact .memberTarget (.computedMember object key)
    | _ => cases isPlain
  | spread => cases formed
  | array elements =>
    cases formed with
    | arrayExpression parts => exact .arrayPattern (elements.formed parts)
  | object values =>
    cases formed with
    | objectExpression parts => exact .objectPattern (values.formed parts)

theorem Node.RetypesElements.formed {elements targets : List (Option Node)}
    (retypes : Node.RetypesElements elements targets)
    (parts : ∀ n, some n ∈ elements → Formed r c .expression n) :
    ∀ n, some n ∈ targets → Formed r c .target n := by
  cases retypes with
  | nil => nofun
  | hole rest => simpa using rest.formed (by simpa using parts)
  | cons first rest =>
    simp only [mem_cons, Option.some.injEq, forall_eq_or_imp] at parts ⊢
    exact ⟨parts.1.retypes first, rest.formed parts.2⟩

theorem Node.RetypesValues.formed {properties targets : List Node}
    (retypes : Node.RetypesValues properties targets)
    (parts : ∀ n ∈ properties, Formed r c .property n) :
    ∀ n ∈ targets, Formed r c .targetProperty n := by
  cases retypes with
  | nil => nofun
  | cons first rest =>
    obtain ⟨property, parts⟩ := forall_mem_cons.mp parts
    refine forall_mem_cons.mpr ⟨?_, rest.formed parts⟩
    cases property with
    | dataProperty key value => exact .targetProperty key (value.retypes first)
    | coverProperty shown value =>
      cases value with
      | assignmentPattern name value =>
        cases first
        exact .defaultProperty (.assignmentPattern name value)
    -- The values of the others are functions, which cannot be read as targets.
    | getter | setter => cases first.asPattern?

end

/-- An expression that is read as a target is formed as one. -/
theorem Formed.retargets (formed : Formed r c .expression n) {target : Node}
    (found : n.asPattern? = some target) : Formed r c .target target :=
  formed.retypes (Node.asPattern?_eq_some_iff.mp found)

/-! ### Parts -/

/-- How a part of a node is read: alone, so that no default may show in it; with the registers of the
whole, so that what shows in it shows in the whole; or as a target or the start of a `for` head, where
a default may stay. -/
inductive Reading where
  | isolated | inherited | covered
  deriving DecidableEq, Repr

/-- What holds of a part if `c` holds of the whole. -/
@[simp]
def Reading.condition : Reading → Prop → Prop
  | isolated, _ => True
  | inherited, c => c
  | covered, _ => False

namespace Node

def isDeclaration : Node → Bool
  | variableDeclaration .. => true
  | _ => false

/-- The parts of a node, and how each is read. What a `for` head declares is read alone. -/
def links : Node → List (Reading × Option Frame × Node)
  | arrayExpression elements | arrayPattern elements =>
    (bare (elements.filterMap fun element => element)).map (.inherited, ·)
  | objectExpression nodes | objectPattern nodes | sequenceExpression nodes =>
    (bare nodes).map (.inherited, ·)
  | property _ key _ value _ _ => [(.isolated, none, key), (.inherited, none, value)]
  | unaryExpression _ argument | updateExpression _ _ argument => [(.inherited, none, argument)]
  | binaryExpression _ left right | memberExpression _ left right =>
    [(.inherited, none, left), (.isolated, none, right)]
  | conditionalExpression test consequent alternate =>
    [(.inherited, none, test), (.isolated, none, consequent), (.isolated, none, alternate)]
  | callExpression callee arguments => (.inherited, none, callee) :: (bare arguments).map (.isolated, ·)
  | assignmentExpression _ left right => [(.covered, none, left), (.isolated, none, right)]
  | forStatement init test update body =>
    init.toList.map start ++ (bare (test.toList ++ update.toList)).map (.isolated, ·) ++
      [(.isolated, some .loopBody, body)]
  | forInStatement left right body =>
    [start left, (.isolated, none, right), (.isolated, some .loopBody, body)]
  | node => node.parts.map (.isolated, ·)
where
  start (node : Node) : Reading × Option Frame × Node :=
    (if node.isDeclaration then .isolated else .covered, none, node)

theorem map_snd_links (n : Node) : n.links.map Prod.snd = n.parts := by
  cases n <;> simp [links, links.start, parts, bare, Function.comp_def]

end Node

/-- Neither an expression nor a target declares anything. -/
theorem Formed.declares_nothing (formed : Formed r c k n) (inert : k = .expression ∨ k = .target) :
    n.isDeclaration = false := by
  cases formed <;> simp_all [Node.isDeclaration]

/-- The parts of a formed node are formed, each under the condition that its reading leaves. Below an
inert place only the bodies of functions are places of another kind. -/
theorem Formed.links (formed : Formed r c k n) : ∀ link ∈ n.links, ∃ k',
    Formed r (link.1.condition c) k' link.2.2 ∧
      (k.isInert = true → link.2.1 = some .functionBody ∨ k'.isInert = true) := by
  have named (c : Prop) (name : Text) : ∃ k, Formed r c k (.identifier name) := ⟨_, .identifier name⟩
  have inert (c : Prop) (name : Text) : ∃ k, Formed r c k (.identifier name) ∧ k.isInert = true :=
    ⟨_, .identifier name, rfl⟩
  -- Three cases need an argument. In all others each part is a name or formed by a premise of the rule.
  cases formed
  case forStatement init test update body =>
    simp +decide only [Node.links, Node.bare, map_append, forall_mem_append, forall_mem_map,
      forall_mem_singleton, Option.mem_toList, Reading.condition, false_imp_iff, and_true]
    refine ⟨⟨fun m found => ?_, fun m found => ⟨_, test m found⟩, fun m found => ⟨_, update m found⟩⟩,
      _, body⟩
    have inert := (init m found).declares_nothing (.inl rfl)
    exact ⟨_, by simpa [Node.links.start, inert] using init m found⟩
  case forInStatement left right body =>
    have inert := left.declares_nothing (.inr rfl)
    simpa +decide [Node.links, Node.links.start, inert] using ⟨⟨_, left⟩, ⟨_, right⟩, _, body⟩
  case memberTarget member =>
    cases member with
    | dottedMember object name => simpa +decide [Node.links, inert] using ⟨_, object, rfl⟩
    | computedMember object key => simpa +decide [Node.links] using ⟨⟨_, object, rfl⟩, _, key, rfl⟩
  all_goals
    simp +decide only [Node.links, Node.links.start, Node.parts, Node.bare, Node.isDeclaration,
      Reading.condition, map_cons, map_nil, map_append, map_map, Function.comp_def, cons_append,
      nil_append, Option.toList_some, if_true, forall_mem_map, forall_mem_append, forall_mem_cons,
      mem_filterMap, Option.mem_toList, Option.map_eq_some_iff, not_mem_nil, and_imp,
      forall_exists_index, exists_eq_right, forall_apply_eq_imp_iff₂, reduceCtorEq, false_imp_iff,
      false_or, true_or, forall_const, implies_true, and_true, true_and, and_assoc, named, inert]
  case program h | blockStatement h | variableDeclaration h | returnStatement h =>
    exact fun m found => ⟨_, h m found⟩
  case variableDeclarator h | objectExpression h | sequenceExpression h | objectPattern h
      | arrayExpression h | arrayPattern h =>
    exact fun m found => ⟨_, h m found, rfl⟩
  case expressionStatement h | throwStatement h | labeledStatement h => exact ⟨_, h⟩
  case unaryExpression h | updateExpression h | dottedMember h | assignmentPattern h | coverProperty h
      | defaultProperty h =>
    exact ⟨_, h, rfl⟩
  case catchClause h => exact ⟨_, .blockStatement h⟩
  case whileStatement h h' | doWhileStatement h' h | withStatement h h' => exact ⟨⟨_, h⟩, _, h'⟩
  case binaryExpression h' h | computedMember h' h | dataProperty h h' | getter h h' | setter h h'
      | targetProperty h h' | assignmentExpression h h' | operationExpression h h' =>
    exact ⟨⟨_, h, rfl⟩, _, h', rfl⟩
  case switchStatement h h' _ => exact ⟨⟨_, h⟩, fun m found => ⟨_, h' m found⟩⟩
  case callExpression h' h | newExpression h h' =>
    exact ⟨⟨_, h, rfl⟩, fun m found => ⟨_, h' m found, rfl⟩⟩
  case functionDeclaration values block =>
    exact ⟨fun m found => ⟨_, values m found⟩, _, .blockStatement block⟩
  case functionExpression values block =>
    exact ⟨fun m found => ⟨_, values m found, rfl⟩, _, .blockStatement block⟩
  case conditionalExpression consequent alternate test =>
    exact ⟨⟨_, test, rfl⟩, ⟨_, consequent, rfl⟩, _, alternate, rfl⟩
  case ifStatement test consequent alternate =>
    exact ⟨⟨_, test⟩, ⟨_, consequent⟩, fun m found => ⟨_, alternate m found⟩⟩
  case switchCase test consequent =>
    exact ⟨fun m found => ⟨_, test m found⟩, fun m found => ⟨_, consequent m found⟩⟩
  case tryStatement block handler finalizer _ =>
    exact ⟨⟨_, .blockStatement block⟩, fun m found => ⟨_, handler m found⟩,
      fun body found => ⟨_, .blockStatement (finalizer body found)⟩⟩
  case forDeclaration kind declarators test update body =>
    exact ⟨⟨_, .variableDeclaration kind declarators⟩, fun m found => ⟨_, test m found⟩,
      fun m found => ⟨_, update m found⟩, _, body⟩
  case forInDeclaration kind left right body =>
    exact ⟨⟨_, .variableDeclaration kind (by simpa using left)⟩, ⟨_, right⟩, _, body⟩

theorem Formed.part {frame : Option Frame} (formed : Formed r c k n) (part : (frame, m) ∈ n.parts) :
    ∃ c k', Formed r c k' m ∧ (k.isInert = true → frame = some .functionBody ∨ k'.isInert = true) := by
  rw [← n.map_snd_links] at part
  obtain ⟨⟨reading, _⟩, member, rfl⟩ := mem_map.mp part
  exact ⟨_, formed.links _ member⟩

theorem Formed.occurs {frames : List Frame} (formed : Formed r c k n) (occurs : n.Occurs frames m) :
    ∃ c k, Formed r c k m := by
  induction occurs generalizing c k with
  | here => exact ⟨c, k, formed⟩
  | deeper part inside ih =>
    obtain ⟨c, k, formed, -⟩ := formed.part part
    exact ih formed

end EcmaScript
