import EcmaScript.Node.Form
import EcmaScript.Proofs.Display
import EcmaScript.Proofs.EarlyErrors

/-!
The shape of syntax trees that tools may rely on. Each node says what may stand in its places, and it has
exactly the attributes that completing a form sets. Patterns stand only where something is assigned: on the
left of a plain assignment, on the left of a `for`-`in` head and inside other patterns.
-/

namespace EcmaScript

namespace Node

def isStatement : Node → Bool
  | emptyStatement | debuggerStatement | blockStatement _ | expressionStatement _ | ifStatement ..
  | doWhileStatement .. | whileStatement .. | forStatement .. | forInStatement .. | continueStatement _
  | breakStatement _ | returnStatement _ | withStatement .. | switchStatement .. | labeledStatement ..
  | throwStatement _ | tryStatement .. | variableDeclaration .. | functionDeclaration .. => true
  | _ => false

def isExpression : Node → Bool
  | thisExpression | identifier _ | literal .. | arrayExpression _ | objectExpression _
  | functionExpression .. | unaryExpression .. | updateExpression .. | binaryExpression ..
  | assignmentExpression .. | conditionalExpression .. | sequenceExpression _ | memberExpression ..
  | callExpression .. | newExpression .. => true
  | _ => false

def isName : Node → Bool
  | identifier _ => true
  | _ => false

def isBlock : Node → Bool
  | blockStatement _ => true
  | _ => false

def isClause : Node → Bool
  | switchCase .. => true
  | _ => false

def isHandler : Node → Bool
  | catchClause .. => true
  | _ => false

def isDeclarator : Node → Bool
  | variableDeclarator .. => true
  | _ => false

def isDefault : Node → Bool
  | assignmentPattern .. => true
  | _ => false

/-- A property of an object that is meant as an expression. -/
def isDataProperty : Node → Bool
  | property _ _ _ value _ _ => value.isExpression
  | _ => false

/-- A property of an object that may also be meant as a pattern, where a default is allowed. -/
def isObjectProperty : Node → Bool
  | property _ _ _ value _ _ => value.isExpression || value.isDefault
  | _ => false

def isPatternProperty : Node → Bool
  | property .init _ _ value _ _ => value.isTarget || value.isDefault
  | _ => false

/-- A function with this number of parameters. -/
def isFunctionOf (arity : Nat) : Node → Bool
  | functionExpression _ params _ _ => params.length = arity
  | _ => false

/-- What stands in the places of a node. Parts that may be missing are options; all others are there. -/
def Regular : Node → Prop
  | program body | blockStatement body => ∀ n ∈ body, n.isStatement
  | emptyStatement | debuggerStatement | thisExpression | identifier _ | literal .. => True
  | expressionStatement e | throwStatement e | unaryExpression _ e | updateExpression _ _ e => e.isExpression
  | ifStatement test consequent alternate =>
    test.isExpression ∧ consequent.isStatement ∧ ∀ n ∈ alternate, n.isStatement
  | doWhileStatement body e | whileStatement e body | withStatement e body =>
    e.isExpression ∧ body.isStatement
  | forStatement init test update body =>
    (∀ n ∈ init, n.isExpression ∨ n.isDeclaration) ∧ (∀ n ∈ test, n.isExpression) ∧
      (∀ n ∈ update, n.isExpression) ∧ body.isStatement
  | forInStatement left right body =>
    (left.isTarget ∨ left.isDeclaration) ∧ right.isExpression ∧ body.isStatement
  | continueStatement label | breakStatement label => ∀ n ∈ label, n.isName
  | returnStatement argument => ∀ n ∈ argument, n.isExpression
  | switchStatement discriminant cases =>
    discriminant.isExpression ∧ (∀ n ∈ cases, n.isClause) ∧ cases.countP isDefaultClause ≤ 1
  | switchCase test consequent => (∀ n ∈ test, n.isExpression) ∧ ∀ n ∈ consequent, n.isStatement
  | labeledStatement label body => label.isName ∧ body.isStatement
  | tryStatement block handler finalizer =>
    block.isBlock ∧ (∀ n ∈ handler, n.isHandler) ∧ (∀ n ∈ finalizer, n.isBlock) ∧
      (handler.isSome ∨ finalizer.isSome)
  | catchClause param body => param.isName ∧ body.isBlock
  | variableDeclaration _ declarations => ∀ n ∈ declarations, n.isDeclarator
  | variableDeclarator id init => id.isName ∧ ∀ n ∈ init, n.isExpression
  | functionDeclaration id params defaults body | functionExpression id params defaults body =>
    (∀ n ∈ id, n.isName) ∧ (∀ n ∈ params, n.isName) ∧ (∀ n, some n ∈ defaults → n.isExpression) ∧
      body.isBlock
  | arrayExpression elements => ∀ n, some n ∈ elements → n.isExpression
  | objectExpression properties => ∀ n ∈ properties, n.isObjectProperty
  | property kind key _ value _ _ =>
    key.isExpression ∧ (kind = .get → value.isFunctionOf 0) ∧ (kind = .set → value.isFunctionOf 1)
  | binaryExpression _ left right => left.isExpression ∧ right.isExpression
  | assignmentExpression operator left right =>
    (if operator = .assign then left.isTarget else left.isExpression) ∧ right.isExpression
  | conditionalExpression test consequent alternate =>
    test.isExpression ∧ consequent.isExpression ∧ alternate.isExpression
  | sequenceExpression expressions => ∀ n ∈ expressions, n.isExpression
  | memberExpression computed object member =>
    object.isExpression ∧ if computed then member.isExpression else member.isName
  | callExpression callee arguments | newExpression callee arguments =>
    callee.isExpression ∧ ∀ n ∈ arguments, n.isExpression
  | arrayPattern elements => ∀ n, some n ∈ elements → n.isTarget
  | objectPattern properties => ∀ n ∈ properties, n.isPatternProperty
  | assignmentPattern left right => left.isName ∧ right.isExpression
  | pyimportStatement _ | spreadElement _ | restElement _ => False

end Node

variable {r : Regime} {c : Prop} {n : Node}

/-! ### Places -/

namespace Formed

theorem isStatement (formed : Formed r c .statement n) (off : ¬ r.pyimport) : n.isStatement = true := by
  cases formed with
  | pyimportStatement name allowed => exact absurd allowed off
  | _ => rfl

theorem isExpression (formed : Formed r c .expression n) : n.isExpression = true := by
  cases formed <;> rfl

theorem isClause (formed : Formed r c .clause n) : n.isClause = true := by
  cases formed
  rfl

theorem isHandler (formed : Formed r c .handler n) : n.isHandler = true := by
  cases formed
  rfl

theorem isDeclarator (formed : Formed r c .declarator n) : n.isDeclarator = true := by
  cases formed
  rfl

theorem isDefault (formed : Formed r c .default n) : n.isDefault = true := by
  cases formed
  rfl

theorem isObjectProperty (formed : Formed r c .property n) : n.isObjectProperty = true := by
  cases formed with
  | dataProperty key value | getter key value | setter key value =>
    simp [Node.isObjectProperty, value.isExpression]
  | coverProperty shown value => simp [Node.isObjectProperty, value.isDefault]

/-- Where no default shows, the property is meant as an expression. -/
theorem isDataProperty (formed : Formed r True .property n) : n.isDataProperty = true := by
  cases formed with
  | dataProperty key value | getter key value | setter key value => exact value.isExpression
  | coverProperty shown => exact absurd trivial shown

theorem isPatternProperty (formed : Formed r c .targetProperty n) : n.isPatternProperty = true := by
  cases formed with
  | targetProperty key value => simp [Node.isPatternProperty, value.isTarget]
  | defaultProperty value => simp [Node.isPatternProperty, value.isDefault]

end Formed

theorem isName_of_mem_map {names : List Text} {n : Node} (member : n ∈ names.map Node.identifier) :
    n.isName = true := by
  obtain ⟨name, -, rfl⟩ := List.mem_map.mp member
  rfl

theorem isName_of_mem_option {name : Option Text} {n : Node} (member : n ∈ name.map Node.identifier) :
    n.isName = true := by
  obtain ⟨name, -, rfl⟩ := Option.map_eq_some_iff.mp member
  rfl

theorem Formed.regular {k : Category} (formed : Formed r c k n) (off : ¬ r.pyimport) : n.Regular := by
  -- Each premise of a rule is about a part and says of which category it is; only a member that is a target
  -- needs the induction.
  induction formed with
  | program statements | blockStatement statements =>
    exact fun n member => (statements n member).isStatement off
  | emptyStatement | debuggerStatement | thisExpression | identifier | literal | nameTarget => trivial
  | expressionStatement e | throwStatement e | unaryExpression _ e | updateExpression _ _ _ _ e =>
    exact e.isExpression
  | ifStatement test consequent alternate =>
    exact ⟨test.isExpression, consequent.isStatement off, fun n found => (alternate n found).isStatement off⟩
  | doWhileStatement body e | whileStatement e body | withStatement _ e body =>
    exact ⟨e.isExpression, body.isStatement off⟩
  | forStatement init test update body =>
    exact ⟨fun n found => .inl (init n found).isExpression, fun n found => (test n found).isExpression,
      fun n found => (update n found).isExpression, body.isStatement off⟩
  | forDeclaration kind declarators test update body =>
    refine ⟨?_, fun n found => (test n found).isExpression, fun n found => (update n found).isExpression,
      body.isStatement off⟩
    -- The head starts with the declaration itself.
    rintro _ ⟨⟩
    exact .inr rfl
  | forInStatement left right body => exact ⟨.inl left.isTarget, right.isExpression, body.isStatement off⟩
  | forInDeclaration kind left right body => exact ⟨.inr rfl, right.isExpression, body.isStatement off⟩
  | continueStatement | breakStatement => exact fun n => isName_of_mem_option
  | returnStatement argument => exact fun n found => (argument n found).isExpression
  | switchStatement discriminant cases single =>
    exact ⟨discriminant.isExpression, fun n member => (cases n member).isClause, single⟩
  | switchCase test consequent =>
    exact ⟨fun n found => (test n found).isExpression, fun n member => (consequent n member).isStatement off⟩
  | labeledStatement name body => exact ⟨rfl, body.isStatement off⟩
  | tryStatement block handler finalizer handled =>
    refine ⟨rfl, fun n found => (handler n found).isHandler, fun n found => ?_, by simpa using handled⟩
    obtain ⟨body, -, rfl⟩ := Option.map_eq_some_iff.mp found
    rfl
  | catchClause => exact ⟨rfl, rfl⟩
  | variableDeclaration kind declarators => exact fun n member => (declarators n member).isDeclarator
  | variableDeclarator lawful init => exact ⟨rfl, fun n found => (init n found).isExpression⟩
  | functionDeclaration lawful values block | functionExpression lawful values block =>
    exact ⟨fun n => isName_of_mem_option, fun n => isName_of_mem_map,
      fun n default => (values n default).isExpression, rfl⟩
  | pyimportStatement name allowed => exact off allowed
  | arrayExpression parts => exact fun n member => (parts n member).isExpression
  | objectExpression parts => exact fun n member => (parts n member).isObjectProperty
  | dataProperty key value => exact ⟨key.isExpression, nofun, nofun⟩
  | getter key value => exact ⟨key.isExpression, fun _ => rfl, nofun⟩
  | setter key value => exact ⟨key.isExpression, nofun, fun _ => rfl⟩
  | coverProperty | defaultProperty => exact ⟨rfl, nofun, nofun⟩
  | targetProperty key value => exact ⟨key.isExpression, nofun, nofun⟩
  | binaryExpression operator left right => exact ⟨left.isExpression, right.isExpression⟩
  | assignmentExpression lawful left right => exact ⟨left.isTarget, right.isExpression⟩
  | operationExpression compound lawful passes left right =>
    refine ⟨?_, right.isExpression⟩
    rw [if_neg compound]
    exact left.isExpression
  | conditionalExpression test consequent alternate =>
    exact ⟨test.isExpression, consequent.isExpression, alternate.isExpression⟩
  | sequenceExpression parts => exact fun n member => (parts n member).isExpression
  | dottedMember object name => exact ⟨object.isExpression, rfl⟩
  | computedMember object key => exact ⟨object.isExpression, key.isExpression⟩
  | callExpression callee parts | newExpression callee parts =>
    exact ⟨callee.isExpression, fun n member => (parts n member).isExpression⟩
  | memberTarget _ ih => exact ih
  | arrayPattern parts => exact fun n member => (parts n member).isTarget
  | objectPattern parts => exact fun n member => (parts n member).isPatternProperty
  | assignmentPattern name value => exact ⟨rfl, value.isExpression⟩

/-! ### Attributes -/

namespace Node

/-- The attributes of the node are those that completing a form sets. -/
def Completed (node : Node) : Prop :=
  ∃ name values attributes, Form.complete name values = (attributes, none) ∧ node.attributes.Perm attributes

variable {node : Node}

/-- The attributes are even set in this order. -/
theorem Completed.of_eq (name : String) (values : List Value)
    (completes : Form.complete name values = (node.attributes, none)) : node.Completed :=
  ⟨name, values, node.attributes, completes, .refl _⟩

theorem Completed.of_type (name : String)
    (completes : Form.complete name (node.attributes.tail.map Prod.snd) = (node.attributes, none)) :
    node.Completed :=
  .of_eq name _ completes

theorem completed_binaryExpression (operator : BinaryOperator) (left right : Node) :
    (binaryExpression operator left right).Completed := by
  apply Completed.of_eq "BinaryExpression" [.ofString operator.spelling, left.toValue, right.toValue]
  cases operator <;> rfl

theorem completed_tryStatement (block : Node) (handler finalizer : Option Node) :
    (tryStatement block handler finalizer).Completed := by
  refine ⟨"TryStatement", [block.toValue, optionValue handler, optionValue finalizer],
    [("type", .ofString "TryStatement"), ("block", block.toValue), ("handler", optionValue handler),
      ("finalizer", optionValue finalizer), ("guardedHandlers", .list []),
      ("handlers", .list (handlerValues handler))], ?_, ?_⟩
  · cases handler with
    | none => rfl
    | some handler =>
      simp only [optionValue, handlerValues, handler.toValue_eq]
      rfl
  · -- The lists of handlers come after the parts, not between them.
    have moved : ([("guardedHandlers", .list []), ("handlers", .list (handlerValues handler))] ++
        [("handler", optionValue handler), ("finalizer", optionValue finalizer)] : Attributes).Perm
        ([("handler", optionValue handler), ("finalizer", optionValue finalizer)] ++
          [("guardedHandlers", .list []), ("handlers", .list (handlerValues handler))]) :=
      List.perm_append_comm
    exact (moved.cons _).cons _

theorem completed_literal (value : Literal) (raw : Text) : (literal value raw).Completed := by
  apply Completed.of_eq "Literal" [.record ([("value", value.toValue), ("raw", .text raw)] ++ value.extra)]
  cases value <;> rfl

theorem completed_property (kind : PropertyKind) (key value : Node) (computed method shorthand : Bool) :
    (property kind key computed value method shorthand).Completed := by
  refine ⟨"Property", [.ofString kind.spelling, key.toValue, .bool computed, value.toValue, .bool method,
    .bool shorthand], _, rfl, ?_⟩
  -- The kind comes first.
  have moved : ([("key", key.toValue), ("computed", .bool computed), ("value", value.toValue)] ++
      ("kind", .ofString kind.spelling) :: [("method", .bool method), ("shorthand", .bool shorthand)] :
      Attributes).Perm _ := List.perm_middle
  exact moved.cons _

theorem completed_updateExpression (operator : UpdateOperator) (prefixed : Bool) (argument : Node) :
    (updateExpression operator prefixed argument).Completed := by
  cases prefixed with
  | true =>
    apply Completed.of_eq "UnaryExpression" [.ofString operator.spelling, argument.toValue]
    cases operator <;> rfl
  | false => exact .of_eq "PostfixExpression" [.ofString operator.spelling, argument.toValue] rfl

theorem completed_unaryExpression (operator : UnaryOperator) (argument : Node) :
    (unaryExpression operator argument).Completed := by
  apply Completed.of_eq "UnaryExpression" [.ofString operator.spelling, argument.toValue]
  cases operator <;> rfl

theorem completed_memberExpression (computed : Bool) (object member : Node) :
    (memberExpression computed object member).Completed := by
  cases computed with
  | true => exact .of_eq "MemberExpression" [.ofString "[", object.toValue, member.toValue] rfl
  | false => exact .of_eq "MemberExpression" [.ofString ".", object.toValue, member.toValue] rfl

theorem completed_variableDeclaration (kind : DeclarationKind) (declarations : List Node) :
    (variableDeclaration kind declarations).Completed := by
  cases kind with
  | var => exact .of_eq "VariableDeclaration" [.list (listValues declarations)] rfl
  | let_ => exact .of_eq "LexicalDeclaration" [.list (listValues declarations), .ofString "let"] rfl
  | const => exact .of_eq "LexicalDeclaration" [.list (listValues declarations), .ofString "const"] rfl

theorem Regular.completed (regular : node.Regular) : node.Completed := by
  cases node with
  | program => exact .of_type "Program" rfl
  | emptyStatement => exact .of_type "EmptyStatement" rfl
  | debuggerStatement => exact .of_type "DebuggerStatement" rfl
  | thisExpression => exact .of_type "ThisExpression" rfl
  | blockStatement => exact .of_type "BlockStatement" rfl
  | expressionStatement => exact .of_type "ExpressionStatement" rfl
  | ifStatement => exact .of_type "IfStatement" rfl
  | doWhileStatement => exact .of_type "DoWhileStatement" rfl
  | whileStatement => exact .of_type "WhileStatement" rfl
  | forStatement => exact .of_type "ForStatement" rfl
  | forInStatement left right body =>
    exact .of_eq "ForInStatement" [left.toValue, right.toValue, body.toValue] rfl
  | continueStatement => exact .of_type "ContinueStatement" rfl
  | breakStatement => exact .of_type "BreakStatement" rfl
  | returnStatement => exact .of_type "ReturnStatement" rfl
  | withStatement => exact .of_type "WithStatement" rfl
  | switchStatement => exact .of_type "SwitchStatement" rfl
  | switchCase => exact .of_type "SwitchCase" rfl
  | labeledStatement => exact .of_type "LabeledStatement" rfl
  | throwStatement => exact .of_type "ThrowStatement" rfl
  | tryStatement block handler finalizer => exact completed_tryStatement block handler finalizer
  | catchClause => exact .of_type "CatchClause" rfl
  | variableDeclaration kind declarations => exact completed_variableDeclaration kind declarations
  | variableDeclarator => exact .of_type "VariableDeclarator" rfl
  | functionDeclaration id params defaults body =>
    exact .of_eq "FunctionDeclaration" [optionValue id, .list (listValues params),
      .list (holesValues defaults), body.toValue] rfl
  | functionExpression id params defaults body =>
    exact .of_eq "FunctionExpression" [optionValue id, .list (listValues params),
      .list (holesValues defaults), body.toValue] rfl
  | identifier => exact .of_type "Identifier" rfl
  | literal value raw => exact completed_literal value raw
  | arrayExpression => exact .of_type "ArrayExpression" rfl
  | objectExpression => exact .of_type "ObjectExpression" rfl
  | property kind key computed value method shorthand =>
    exact completed_property kind key value computed method shorthand
  | unaryExpression operator argument => exact completed_unaryExpression operator argument
  | updateExpression operator prefixed argument =>
    exact completed_updateExpression operator prefixed argument
  | binaryExpression operator left right => exact completed_binaryExpression operator left right
  | assignmentExpression => exact .of_type "AssignmentExpression" rfl
  | conditionalExpression => exact .of_type "ConditionalExpression" rfl
  | sequenceExpression => exact .of_type "SequenceExpression" rfl
  | memberExpression computed object member => exact completed_memberExpression computed object member
  | callExpression => exact .of_type "CallExpression" rfl
  | newExpression => exact .of_type "NewExpression" rfl
  | arrayPattern => exact .of_type "ArrayPattern" rfl
  | objectPattern => exact .of_type "ObjectPattern" rfl
  | assignmentPattern => exact .of_type "AssignmentPattern" rfl
  | pyimportStatement | spreadElement | restElement => exact regular.elim

theorem regex_isSome_iff (node : Node) : (node.attributes.get? "regex").isSome = true ↔
    ∃ pattern flags raw, node = .literal (.regExp pattern flags) raw := by
  cases node
  case literal value raw =>
    cases value with
    | regExp pattern flags => exact ⟨fun _ => ⟨pattern, flags, raw, rfl⟩, fun _ => rfl⟩
    | _ => exact ⟨nofun, nofun⟩
  all_goals exact ⟨nofun, nofun⟩

theorem handlers_eq (node : Node) {handler : Value} (found : node.attributes.get? "handler" = some handler) :
    node.attributes.get? "handlers" = some (.list (if handler.isPresent then [handler] else [])) := by
  cases node
  case tryStatement block clause finalizer =>
    cases found
    cases clause with
    | none => rfl
    | some clause =>
      have present : clause.toValue.isPresent = true := by
        rw [clause.toValue_eq]
        rfl
      rw [optionValue, if_pos present]
      rfl
  case literal value raw => cases value <;> cases found
  all_goals cases found

/-- A node as tools may rely on it. -/
structure WellFormed (node : Node) : Prop where
  regular : node.Regular
  completed : node.Completed
  regex : (node.attributes.get? "regex").isSome = true ↔
    ∃ pattern flags raw, node = .literal (.regExp pattern flags) raw
  handlers : ∀ handler, node.attributes.get? "handler" = some handler →
    node.attributes.get? "handlers" = some (.list (if handler.isPresent then [handler] else []))

theorem Regular.wellFormed (regular : node.Regular) : node.WellFormed :=
  ⟨regular, regular.completed, node.regex_isSome_iff, fun _ => node.handlers_eq⟩

end Node

/-! ### Programs -/

/-- The tree of a program is well-formed. Whatever has a type in the value of the tree is a node that occurs
in the tree, and all nodes that occur are well-formed: what belongs there stands in each place, the
attributes are those of a form and no others. The properties of an object are meant as expressions, unless
the object lies on the left side of an assignment or at the start of a `for` head. -/
theorem parse_wellFormed {settings : Settings} {code : Text} {root : Node} (off : settings.pyimport = false)
    (parsed : parse settings code = .ok root) : (∃ body, root = .program body) ∧
    (∀ attributes, root.toValue.Holds attributes → attributes.get? "type" ≠ none →
      root.Bears attributes) ∧ (∀ frames node, root.Occurs frames node → node.WellFormed) ∧
    ∀ properties, root.Shows (.objectExpression properties) → ∀ n ∈ properties, n.isDataProperty := by
  have formed := parse_formed parsed
  refine ⟨?_, fun attributes holds typed => ?_, fun frames node occurs => ?_, fun properties shown => ?_⟩
  · cases formed with
    | program => exact ⟨_, rfl⟩
  · exact (Node.bears_of_holds holds typed).1 root rfl
  · obtain ⟨c, k, formed⟩ := formed.occurs occurs
    exact (formed.regular (by simp [off])).wellFormed
  · obtain ⟨k, formed⟩ := formed.shows shown
    cases formed with
    | objectExpression parts => exact fun n member => (parts n member).isDataProperty

theorem enumeration_parsed : (match parse {} (Text.ofString "for ([a, b[{c: d}]] in /e/) ;") with
    | .ok (.program [.forInStatement (.arrayPattern
        [some _, some (.memberExpression _ _ (.objectExpression _))]) (.literal (.regExp _ _) _) _, _]) => true
    | _ => false) = true := by decide +kernel

/-- A pattern on the left of a `for`-`in` head, with an object in the key of a member, and a regular
expression on its right. -/
theorem parse_wellFormed_enumeration :
    ∃ root frames elements pattern flags raw body properties,
      parse {} (Text.ofString "for ([a, b[{c: d}]] in /e/) ;") = .ok root ∧
      root.Occurs frames
        (.forInStatement (.arrayPattern elements) (.literal (.regExp pattern flags) raw) body) ∧
      (Node.forInStatement (.arrayPattern elements) (.literal (.regExp pattern flags) raw) body).Regular ∧
      root.Shows (.objectExpression properties) ∧ ∀ n ∈ properties, n.isDataProperty := by
  have shape := enumeration_parsed
  split at shape
  case h_2 => cases shape
  next first computed object properties pattern flags raw body last parsed =>
    refine ⟨_, _, _, pattern, flags, raw, body, properties, parsed, .of_descend [0] rfl, ?_, ?shows,
      (parse_wellFormed rfl parsed).2.2.2 _ ?shows⟩
    · exact ((parse_wellFormed rfl parsed).2.2.1 _ _ (.of_descend [0] rfl)).regular
    · exact .isolated (.of_descend [0, 0, 1] rfl) (List.mem_of_getElem? (i := 1) rfl)

theorem defaults_parsed : (match parse {} (Text.ofString "function f(a,b=1){}") with
    | .ok (.program [.functionDeclaration _ _ (none :: _) _, _]) => true
    | _ => false) = true := by decide +kernel

/-- Null stands also for a parameter without a default, if another one has a default. -/
theorem parse_null_default :
    ∃ root frames id params defaults body, parse {} (Text.ofString "function f(a,b=1){}") = .ok root ∧
      root.Occurs frames (.functionDeclaration id params (none :: defaults) body) ∧
      (Node.functionDeclaration id params (none :: defaults) body).attributes.get? "defaults" =
        some (.list (.null :: Node.holesValues defaults)) := by
  have shape := defaults_parsed
  split at shape
  case h_2 => cases shape
  next id params defaults body last parsed =>
    exact ⟨_, _, id, params, defaults, body, parsed, .of_descend [0] rfl, rfl⟩

/-! ### Names of functions -/

section

open Parse Grammar

/-- The name of a function as the token behind the keyword decides it: it is missing if the parameters
follow, and nothing else is taken for a missing name. -/
def Names (required : Bool) (p : Parser) (name : Option Node) : Prop :=
  name = none ∧ required = false ∧ p.Looks (.punctuator .openParen) ∨
    ∃ text, name = some (.identifier text) ∧ p.Looks (.identifier text)

theorem functionName_looks_ahead (p : Parser) :
    Meets functionName p (fun found _ => p.Looks (.identifier found.1)) anyFault := by
  refine (lookahead_returns p).bind fun token q found => ?_
  rw [found.1]
  refine (Pairing.bindingName_looks p).bind fun name q looks => .past fun strict r => ?_
  have answers (refusal : Option (Token × Message)) : p.Looks (.identifier (name, refusal).1) := looks
  refine .ite (fun _ => .ite (fun _ => trivial) fun _ => answers none) fun _ => ?_
  exact .ite (fun _ => answers _) fun _ => .ite (fun _ => answers _) fun _ => answers none

theorem functionTail_names (reader : Reader) (required : Bool) (p : Parser) :
    Meets (functionTail reader required) p (fun found _ => Names required p found.1) anyFault := by
  have rest (name : Option (Text × Option (Token × Message)))
      (names : Names required p (name.map (Node.identifier ∘ Prod.fst))) (q : Parser) :
      Meets (functionRest reader name) q (fun found _ => Names required p found.1) anyFault :=
    .past fun f _ => .past fun body _ => names
  have named : Meets (some <$> functionName) p
      (fun name _ => Names required p (name.map (Node.identifier ∘ Prod.fst))) anyFault :=
    Meets.map_iff.mpr ((functionName_looks_ahead p).imp fun found _ looks => .inr ⟨found.1, rfl, looks⟩)
  refine .ite (fun _ => named.bind fun name q names => rest name names q) fun optional => ?_
  refine .into ((lookahead_returns p).bind fun token q found => ?_)
  rw [found.1]
  refine .ite (fun isMark => ?_) fun _ => named.bind fun name q names => rest name names q
  exact rest none (.inl ⟨rfl, by simpa using optional, token, found.2, of_decide_eq_true isMark⟩) p

/-- The name of a function declaration is an identifier or is missing. It is missing just where the
parameters follow the keyword and the rule does not require a name. -/
theorem parse_function_names (settings : Settings) (code : Text) :
    (∀ root frames id params defaults body, parse settings code = .ok root →
      root.Occurs frames (.functionDeclaration id params defaults body) →
        id = none ∨ ∃ name, id = some (.identifier name)) ∧
    ∀ reader required p node q, functionDeclaration reader required p = .ok node q →
      ∃ r id params defaults body, expectKeyword .function p = .ok () r ∧
        node = .functionDeclaration id params defaults body ∧ Names required r id := by
  constructor
  · intro root frames id params defaults body parsed occurs
    have formed := parse_formed parsed
    obtain ⟨c, k, formed⟩ := formed.occurs occurs
    cases formed with
    | @functionDeclaration _ name =>
      cases name with
      | none => exact .inl rfl
      | some name => exact .inr ⟨name, rfl⟩
  · intro reader required p node q run
    obtain ⟨_, r, begun, run⟩ := bind_ok_iff.mp run
    obtain ⟨⟨id, f, body⟩, s, tail, run⟩ := bind_ok_iff.mp run
    cases run
    have names := (functionTail_names reader required r).of_ok tail
    exact ⟨r, id, _, _, body, begun, rfl, names⟩

theorem nameless_parsed : (match parse {} (Text.ofString "if(a)function(){}") with
    | .ok (.program [.ifStatement _ (.functionDeclaration none _ _ _) none, _]) => true
    | _ => false) = true := by decide +kernel

/-- A function without a name in the place of a statement, and the rule that reads one. -/
theorem parse_function_names_missing :
    (∃ root frames params defaults body, parse {} (Text.ofString "if(a)function(){}") = .ok root ∧
      root.Occurs frames (.functionDeclaration none params defaults body) ∧
      ((none : Option Node) = none ∨ ∃ name, none = some (Node.identifier name))) ∧
    ∃ p node q r id, functionDeclaration (readerOf 8) false p = .ok node q ∧
      expectKeyword .function p = .ok () r ∧ Names false r id := by
  constructor
  · have shape := nameless_parsed
    split at shape
    case h_2 => cases shape
    next test params defaults body last parsed =>
      refine ⟨_, _, params, defaults, body, parsed, .of_descend [0, 1] rfl, ?_⟩
      exact (parse_function_names _ _).1 _ _ _ _ _ _ parsed (.of_descend [0, 1] rfl)
  · obtain ⟨node, q, run⟩ := Meets.runs (m := do peek; functionDeclaration (readerOf 8) false)
      (s := Parser.begin {} (Text.ofString "function(){}")) (by decide +kernel)
    obtain ⟨_, p, -, run⟩ := bind_ok_iff.mp run
    obtain ⟨r, id, _, _, _, begun, -, names⟩ := (parse_function_names {} []).2 _ _ _ _ _ run
    exact ⟨p, node, q, r, id, run, begun, names⟩

end

end EcmaScript
