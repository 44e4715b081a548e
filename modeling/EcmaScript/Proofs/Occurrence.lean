import EcmaScript.Proofs.Targets

/-!
Where nodes occur in a tree. A node puts some of its parts in a frame: the body of a function, the
body of a loop, the clauses of a `switch`, the statement after a label. An occurrence is a path from
the root together with the frames met on it, so that what a program says about the surroundings of a
statement can be read off the path.
-/

namespace EcmaScript

/-- What a place of a program can lie in. -/
inductive Frame where
  | functionBody
  | loopBody
  | switchClauses
  | label (name : Text)
  deriving DecidableEq, Repr

namespace Frame

/-- The frames on a path, innermost first, up to the body of the innermost function. -/
def sameFunction (frames : List Frame) : List Frame :=
  frames.takeWhile (· ≠ functionBody)

@[simp] theorem sameFunction_cons (frame : Frame) (frames : List Frame) : sameFunction (frame :: frames) =
      if frame = functionBody then [] else frame :: sameFunction frames := by
  by_cases h : frame = functionBody <;> simp [sameFunction, h]

end Frame

namespace Node

/-- Parts that stand in no frame of their own. -/
def bare (nodes : List Node) : List (Option Frame × Node) :=
  nodes.map fun node => (none, node)

/-- The direct parts of a node, each with the frame that the node puts around it. -/
def parts : Node → List (Option Frame × Node)
  | program body | blockStatement body => bare body
  | expressionStatement expression => bare [expression]
  | ifStatement test consequent alternate => bare (test :: consequent :: alternate.toList)
  | doWhileStatement body test | whileStatement test body =>
    [(none, test), (some .loopBody, body)]
  | forStatement init test update body =>
    bare (init.toList ++ test.toList ++ update.toList) ++ [(some .loopBody, body)]
  | forInStatement left right body => bare [left, right] ++ [(some .loopBody, body)]
  | continueStatement label | breakStatement label => bare label.toList
  | returnStatement argument => bare argument.toList
  | withStatement object body => bare [object, body]
  | switchStatement discriminant cases =>
    (none, discriminant) :: cases.map fun node => (some .switchClauses, node)
  | switchCase test consequent => bare (test.toList ++ consequent)
  | labeledStatement label body => [(none, label), (label.name?.map .label, body)]
  | throwStatement argument => bare [argument]
  | tryStatement block handler finalizer => bare (block :: handler.toList ++ finalizer.toList)
  | catchClause param body => bare [param, body]
  | variableDeclaration _ declarations => bare declarations
  | variableDeclarator id init => bare (id :: init.toList)
  | functionDeclaration id params defaults body | functionExpression id params defaults body =>
    bare (id.toList ++ params ++ defaults.filterMap fun default => default) ++
      [(some .functionBody, body)]
  | pyimportStatement module => bare [module]
  | arrayExpression elements | arrayPattern elements =>
    bare (elements.filterMap fun element => element)
  | objectExpression properties | objectPattern properties => bare properties
  | property _ key _ value _ _ => bare [key, value]
  | unaryExpression _ argument | updateExpression _ _ argument => bare [argument]
  | binaryExpression _ left right | assignmentExpression _ left right => bare [left, right]
  | conditionalExpression test consequent alternate => bare [test, consequent, alternate]
  | sequenceExpression expressions => bare expressions
  | memberExpression _ object member => bare [object, member]
  | callExpression callee arguments | newExpression callee arguments => bare (callee :: arguments)
  | assignmentPattern left right => bare [left, right]
  | spreadElement argument | restElement argument => bare [argument]
  | emptyStatement | debuggerStatement | thisExpression | identifier _ | literal .. => []

/-- `root.Occurs frames node`: the node is the root or lies below it, inside these frames, of which
the innermost comes first. -/
inductive Occurs : Node → List Frame → Node → Prop where
  | here (node : Node) : Occurs node [] node
  | deeper {parent child node : Node} {frame : Option Frame} {frames : List Frame}
      (part : (frame, child) ∈ parent.parts) (inside : Occurs child frames node) :
      Occurs parent (frames ++ frame.toList) node

/-- The node at the end of a path, which tells the part to go to at each step, with the frames around it. -/
def descend : Node → List Nat → Option (List Frame × Node)
  | node, [] => some ([], node)
  | node, i :: path => do
    let (frame, child) ← node.parts[i]?
    let (frames, found) ← child.descend path
    some (frames ++ frame.toList, found)

theorem Occurs.of_descend (path : List Nat) {root node : Node} {frames : List Frame}
    (found : root.descend path = some (frames, node)) : root.Occurs frames node := by
  induction path generalizing root frames with
  | nil =>
    cases found
    exact .here _
  | cons i path ih =>
    obtain ⟨⟨frame, child⟩, part, found⟩ := Option.bind_eq_some_iff.mp found
    obtain ⟨⟨inner, _⟩, below, found⟩ := Option.bind_eq_some_iff.mp found
    cases found
    exact .deeper (List.mem_of_getElem? part) (ih below)

@[simp] theorem mem_bare {nodes : List Node} {frame : Option Frame} {node : Node} :
    (frame, node) ∈ bare nodes ↔ frame = none ∧ node ∈ nodes := by
  simp only [bare, List.mem_map, Prod.mk.injEq]
  constructor
  · rintro ⟨_, member, rfl, rfl⟩
    exact ⟨rfl, member⟩
  · rintro ⟨rfl, member⟩
    exact ⟨node, member, rfl, rfl⟩

@[simp] theorem map_snd_bare (nodes : List Node) : (bare nodes).map Prod.snd = nodes := by
  rw [bare, List.map_map]
  exact List.map_id nodes

/-! ### Targets -/

def collection? : Node → Option (List Node)
  | arrayExpression elements | arrayPattern elements => some (elements.filterMap fun element => element)
  | objectExpression properties | objectPattern properties => some properties
  | spreadElement argument | restElement argument => some [argument]
  | _ => none

/-- A condition that collections meet as soon as their parts do, and properties with their values. -/
structure Partwise (holds : Node → Prop) : Prop where
  collection : ∀ {node nodes}, node.collection? = some nodes → (holds node ↔ ∀ part ∈ nodes, holds part)
  property : ∀ {kind key computed value target method shorthand}, (holds value ↔ holds target) →
    (holds (property kind key computed value method shorthand) ↔
      holds (property kind key computed target method shorthand))

namespace Partwise

variable {holds : Node → Prop}

mutual

/-- Such a condition does not tell an expression from the target that it is read as. -/
theorem retypes (partwise : Partwise holds) {node target : Node} (retypes : Retypes node target) :
    holds node ↔ holds target := by
  cases retypes with
  | plain => rfl
  | spread argument =>
    rw [partwise.collection rfl, partwise.collection rfl, List.forall_mem_singleton,
      List.forall_mem_singleton]
    exact partwise.retypes argument
  | array elements =>
    rw [partwise.collection rfl, partwise.collection rfl]
    exact partwise.elements elements
  | object values =>
    rw [partwise.collection rfl, partwise.collection rfl]
    exact partwise.properties values

theorem elements (partwise : Partwise holds) {elements targets : List (Option Node)}
    (retypes : RetypesElements elements targets) :
    (∀ node ∈ elements.filterMap fun element => element, holds node) ↔
      ∀ node ∈ targets.filterMap fun element => element, holds node := by
  cases retypes with
  | nil => rfl
  | hole rest => simpa using partwise.elements rest
  | cons first rest =>
    simp only [List.filterMap_cons, List.forall_mem_cons]
    rw [partwise.retypes first, partwise.elements rest]

theorem properties (partwise : Partwise holds) {properties targets : List Node}
    (retypes : RetypesValues properties targets) :
    (∀ node ∈ properties, holds node) ↔ ∀ node ∈ targets, holds node := by
  cases retypes with
  | nil => rfl
  | cons first rest =>
    rw [List.forall_mem_cons, List.forall_mem_cons, partwise.property (partwise.retypes first),
      partwise.properties rest]

end

theorem asPattern (partwise : Partwise holds) {node target : Node}
    (found : node.asPattern? = some target) : holds node ↔ holds target :=
  partwise.retypes (asPattern?_eq_some_iff.mp found)

end Partwise

end Node

end EcmaScript
