import EcmaScript.Proofs.Directive
import EcmaScript.Proofs.UsedNames

/-!
Comparisons of two runs. A rule is made of few primitive steps: it looks at registers, changes some that
are its own, fetches tokens and complains. A comparison says something of two computations that are run
side by side and is closed under these steps, and what it says then holds of every rule and itself. The
two runs may be over different sources or under different settings, or there may be one run only: that
the context is put back, that the fetches can be listed, that names and complaints are warranted by the
tokens, that jumps lead somewhere and that layout does not matter are all comparisons. Here are the laws
that a comparison has to obey, and the computations that the grammar is made of.
-/

namespace EcmaScript

variable {α β : Type}

/-! ### Tokens and registers -/

theorem Grammar.regExpLiteral_eq : regExpLiteral = (do
    Parse.expressionOnly
    let r ← Parse.rescan
    pure (.literal (.regExp r.pattern r.flags) r.raw)) := by
  simp only [regExpLiteral, Parse.rescan, bind_assoc, pure_bind]

/-- A token as it was read, without a note on its precedence. -/
def Token.unnoted (token : Token) : Token :=
  { token with precedence := none }

def Token.IsSlash (token : Token) : Prop :=
  token.lexeme = .punctuator .slash ∨ token.lexeme = .punctuator .slashAssign

/-- Nothing was read between `p` and `q`; at most the lookahead was noted to be an operator. -/
structure Parser.Calm (p q : Parser) : Prop where
  source : q.source = p.source
  settings : q.settings = p.settings
  cursor : q.cursor = p.cursor
  start : q.start = p.start
  lookahead : q.lookahead.map Token.unnoted = p.lookahead.map Token.unnoted

/-- Besides a note on the lookahead, only registers of the cover grammar differ. -/
structure Parser.Unmoved (p q : Parser) : Prop extends Parser.Calm p q where
  last : q.last = p.last
  strict : q.strict = p.strict
  context : q.context = p.context
  taken : q.taken = p.taken

theorem Parser.unmoved_cover (p : Parser) (binding target : Option Bool) (cover : Option Token) :
    p.Unmoved { p with
      bindingElement := binding, assignmentTarget := target, coverInitialized := cover } :=
  ⟨⟨rfl, rfl, rfl, rfl, rfl⟩, rfl, rfl, rfl, rfl⟩

theorem Parser.Calm.token {p q : Parser} (calm : p.Calm q) {t : Token} (found : q.lookahead = some t) :
    ∃ seen, p.lookahead = some seen ∧ t = { seen with precedence := t.precedence } := by
  have same := calm.lookahead
  rw [found, Option.map_some] at same
  obtain ⟨seen, looked, unnoted⟩ := Option.map_eq_some_iff.mp same.symm
  refine ⟨seen, looked, ?_⟩
  cases t
  cases seen
  simpa [Token.unnoted] using unnoted.symm

/-- What is given away is the lookahead, and there is another one then. -/
theorem Parse.lex_returns (p : Parser) :
    Meets lex p (fun given q => given = p.lookahead ∧ q.lookahead.isSome) anyFault := by
  refine (lex_fetches p).imp ?_
  rintro _ _ ⟨rfl, _, _, _, _, -, rfl⟩
  exact ⟨rfl, rfl⟩

/-- The registers besides those of the tokens. Of the token that only a target could hold it matters
whether there is one. -/
structure Parser.Concurs (p q : Parser) : Prop where
  strict : p.strict = q.strict
  context : p.context = q.context
  bindingElement : p.bindingElement = q.bindingElement
  assignmentTarget : p.assignmentTarget = q.assignmentTarget
  covered : p.coverInitialized.isSome = q.coverInitialized.isSome

theorem Parser.Concurs.refl (p : Parser) : p.Concurs p :=
  ⟨rfl, rfl, rfl, rfl, rfl⟩

/-- What rules see of two parsers: registers that concur, and tokens that stand for each other. -/
structure Parser.Seen (token : Token → Token → Prop) (p q : Parser) : Prop extends p.Concurs q where
  cover : ∀ t, p.coverInitialized = some t → token t t
  lookahead : ∀ t, p.lookahead = some t → ∃ u, q.lookahead = some u ∧ token t u

/-- A list with one more item at its end. -/
theorem forall_mem_concat {holds : α → Prop} {items : List α} {item : α}
    (before : ∀ a ∈ items, holds a) (last : holds item) : ∀ a ∈ items ++ [item], holds a := by
  simpa only [List.forall_mem_append, List.forall_mem_singleton] using ⟨before, last⟩

/-! ### Trees -/

/-- An import stands somewhere in the tree. -/
def Node.Imports (node : Node) : Prop :=
  ∃ frames module, node.Occurs frames (.pyimportStatement module)

theorem Node.Imports.of_part {node part : Node} (imports : part.Imports)
    (member : part ∈ node.parts.map Prod.snd) : node.Imports := by
  obtain ⟨frames, module, occurs⟩ := imports
  obtain ⟨⟨frame, _⟩, listed, rfl⟩ := List.mem_map.mp member
  exact ⟨_, module, .deeper listed occurs⟩

theorem Node.not_imports_iff {node : Node} (other : ∀ module, node ≠ .pyimportStatement module) :
    ¬node.Imports ↔ ∀ part ∈ node.parts.map Prod.snd, ¬part.Imports := by
  constructor
  · exact fun free part member imports => free (imports.of_part member)
  · rintro free ⟨_, module, occurs⟩
    cases occurs with
    | here => exact other module rfl
    | deeper member inside =>
      exact free _ (List.mem_map.mpr ⟨_, member, rfl⟩) ⟨_, module, inside⟩

theorem Node.partwise_not_imports : Partwise fun node => ¬node.Imports where
  collection {node _} found := by
    cases node <;> cases found
    all_goals simp [not_imports_iff, parts]
  property same := by simp [not_imports_iff, parts, same]

/-- An import among the first trees is not lost: there is one among the second ones as well. -/
def Covers (before after : List Node) : Prop :=
  (∃ node ∈ before, node.Imports) → ∃ node ∈ after, node.Imports

namespace Covers

variable {before after : List Node}

theorem refl : Covers before before :=
  id

theorem trans {between : List Node} (first : Covers before between) (second : Covers between after) :
    Covers before after :=
  second ∘ first

theorem of_mem (kept : ∀ node ∈ before, node ∈ after) : Covers before after :=
  fun ⟨node, member, imports⟩ => ⟨node, kept node member, imports⟩

theorem nil : Covers [] after :=
  of_mem (by simp)

theorem of_parts {whole : Node} (kept : ∀ part ∈ before, part ∈ whole.parts.map Prod.snd) :
    Covers before [whole] :=
  fun ⟨part, member, imports⟩ => ⟨whole, by simp, imports.of_part (kept part member)⟩

theorem append (trees : List Node) (kept : Covers before after) :
    Covers (trees ++ before) (trees ++ after) := by
  rintro ⟨node, member, imports⟩
  rcases List.mem_append.mp member with first | second
  · exact ⟨node, List.mem_append_left _ first, imports⟩
  · obtain ⟨whole, member, imports⟩ := kept ⟨node, second, imports⟩
    exact ⟨whole, List.mem_append_right _ member, imports⟩

theorem join {trees : List Node} (first : Covers before after) (second : Covers trees after) :
    Covers (before ++ trees) after := by
  rintro ⟨node, member, imports⟩
  rcases List.mem_append.mp member with left | right
  · exact first ⟨node, left, imports⟩
  · exact second ⟨node, right, imports⟩

/-- A target holds the imports of the expression that it is read from. -/
theorem asPattern {node target : Node} (found : node.asPattern? = some target) :
    Covers [node] [target] := by
  have kept (imports : node.Imports) : target.Imports := Classical.byContradiction fun free =>
    (Node.partwise_not_imports.asPattern found).mpr free imports
  simpa [Covers] using kept

end Covers

/-- The trees that an answer holds. -/
class Bears (α : Type) where
  trees : α → List Node

export Bears (trees)

instance (priority := low) Bears.none : Bears α :=
  ⟨fun _ => []⟩

instance : Bears Node :=
  ⟨fun node => [node]⟩

instance : Bears (List Node) :=
  ⟨fun nodes => nodes⟩

instance : Bears (Option Node) :=
  ⟨Option.toList⟩

instance : Bears (List (Option Node)) :=
  ⟨List.filterMap fun node => node⟩

instance : Bears (Option (Token × Node × Option Text)) :=
  ⟨fun found => found.toList.map fun statement => statement.2.1⟩

instance [Bears α] [Bears β] : Bears (α × β) :=
  ⟨fun (a, b) => trees a ++ trees b⟩

instance [Bears α] [Bears β] : Bears (α ⊕ β) :=
  ⟨Sum.elim trees trees⟩

@[simp] theorem trees_none (a : α) : @trees α Bears.none a = [] := rfl

@[simp] theorem trees_node (node : Node) : trees node = [node] := rfl

@[simp] theorem trees_list (nodes : List Node) : trees nodes = nodes := rfl

@[simp] theorem trees_option (node : Option Node) : trees node = node.toList := rfl

@[simp] theorem trees_holes (nodes : List (Option Node)) :
    trees nodes = nodes.filterMap fun node => node := rfl

@[simp] theorem trees_pair [Bears α] [Bears β] (a : α) (b : β) : trees (a, b) = trees a ++ trees b :=
  rfl

namespace Node

/-- Nodes all of whose parts count and stand in the same scope, and which are no jumps: expressions
without functions, and the statements that hold nothing but expressions. -/
def isPlain : Node → Bool
  | expressionStatement _ | throwStatement _ | variableDeclaration .. | variableDeclarator ..
  | pyimportStatement _ | arrayExpression _ | objectExpression _ | unaryExpression ..
  | updateExpression .. | binaryExpression .. | assignmentExpression .. | conditionalExpression ..
  | sequenceExpression _ | memberExpression true .. | callExpression .. | newExpression ..
  | assignmentPattern .. | emptyStatement | debuggerStatement | thisExpression | literal .. => true
  | _ => false

/-- Statements that put no frame around their parts. -/
def isCompound : Node → Bool
  | blockStatement _ | ifStatement .. | withStatement .. | switchCase .. | tryStatement ..
  | catchClause .. => true
  | _ => false

def loop? : Node → Option (List Node × Node)
  | doWhileStatement body test | whileStatement test body => some ([test], body)
  | forStatement init test update body =>
    some (init.toList ++ test.toList ++ update.toList, body)
  | forInStatement left right body => some ([left, right], body)
  | _ => none

def function? : Node → Option (List Node × Node)
  | functionDeclaration id params defaults body | functionExpression id params defaults body =>
    some (id.toList ++ params ++ defaults.filterMap fun default => default, body)
  | _ => none

theorem usedParts_of_isPlain {node : Node} (plain : node.isPlain = true) :
    node.usedParts = node.parts.map Prod.snd := by
  unfold usedParts
  split
  · cases plain
  · cases plain
  · rfl

theorem usedParts_of_isCompound {node : Node} (compound : node.isCompound = true) :
    node.usedParts = node.parts.map Prod.snd := by
  unfold usedParts
  split
  · cases compound
  · cases compound
  · rfl

/-- What a property may be called without brackets. -/
def isKey : Node → Bool
  | identifier _ | literal .. => true
  | _ => false

end Node

theorem Covers.key {key : Node} (isKey : key.isKey = true) {after : List Node} : Covers [key] after := by
  have free : ¬key.Imports := by
    cases key <;> cases isKey
    all_goals simp [Node.not_imports_iff, Node.parts]
  simpa [Covers] using fun imports => absurd imports free

def Context.inBody (c : Context) : Context :=
  { c with
    labels := []
    inIteration := false
    inSwitch := false
    inFunctionBody := true
    parenthesizedCount := some 0 }

/-- What is asked of trees: of the names that they use, of expressions, of the bodies of functions, and
of statements in the context around them. Where contexts are `binding`, jumps have to fit in. -/
structure Trees where
  binding : Prop
  name : Text → Prop
  expression : Node → Prop
  statement : Context → Node → Prop
  body : Node → Prop
  identifier : ∀ {text}, expression (.identifier text) ↔ name text
  plain : ∀ {node : Node}, node.isPlain = true → (∀ part ∈ node.usedParts, expression part) →
    expression node
  member : ∀ {object text}, expression object →
    expression (.memberExpression false object (.identifier text))
  property : ∀ {kind key value computed method shorthand}, (computed = true → expression key) →
    (computed = false → key.isKey = true) → expression value →
    expression (.property kind key computed value method shorthand)
  function : ∀ {node head inner}, node.function? = some (head, inner) →
    (∀ part ∈ head, expression part) → body inner → expression node
  target : ∀ {node target : Node}, node.asPattern? = some target → expression node → expression target
  lift : ∀ {c node}, expression node → statement c node
  restate : ∀ {c c' node}, statement c (.expressionStatement node) →
    statement c' (.expressionStatement node)
  compound : ∀ {c} {node : Node}, node.isCompound = true → (∀ part ∈ node.usedParts, statement c part) →
    statement c node
  loop : ∀ {c node head inner}, node.loop? = some (head, inner) → (∀ part ∈ head, expression part) →
    statement { c with inIteration := true } inner → statement c node
  switch : ∀ {c discriminant cases}, expression discriminant →
    (∀ node ∈ cases, statement { c with inSwitch := true } node) →
    statement c (.switchStatement discriminant cases)
  labeled : ∀ {c text inner}, name text → (binding → text ∉ c.labels) →
    statement { c with labels := c.labels ++ [text] } inner →
    statement c (.labeledStatement (.identifier text) inner)
  returned : ∀ {c argument}, (binding → c.inFunctionBody = true) →
    (∀ node ∈ argument, expression node) → statement c (.returnStatement argument)
  broken : ∀ {c label}, (∀ text ∈ label, name text ∧ (binding → text ∈ c.labels)) →
    (binding → label = none → (c.inIteration || c.inSwitch) = true) →
    statement c (.breakStatement (label.map .identifier))
  continued : ∀ {c label}, (∀ text ∈ label, name text ∧ (binding → text ∈ c.labels)) →
    (binding → label = none → c.inIteration = true) →
    statement c (.continueStatement (label.map .identifier))
  bodied : ∀ {c nodes}, (∀ node ∈ nodes, statement (Context.inBody c) node) →
    body (.blockStatement nodes)

/-- What is asked of a tree that is read for a goal. -/
def Trees.Admits (t : Trees) (c : Context) : Goal → Node → Prop
  | .assignment | .unary | .leftHandSide => t.expression
  | .statement | .listItem => t.statement c

/-! ### Comparisons -/

/-- Where a rule is applied: the context around it, and whether the code may be stricter when it has
ended. -/
structure Situation where
  context : Context
  loose : Bool := false

/-- What is said of two computations, run from two parsers: they give answers that are alike, or the runs
have come `apart`, and then the answer of the left one is compared with itself. The trees in hand are
those that have been read and not been put into others yet; besides those of the answer, some stay in
hand. -/
structure Comparison extends Trees where
  token : Token → Token → Prop
  Holds : Situation → List Node → Bool → Parser → Parser → Prop
  At : {α : Type} → [Bears α] → Situation → Bool → Parser → Parser → ParseM α → ParseM α →
    (α → α → Prop) → List Node → Prop
  lexeme : ∀ {t u}, token t u → u.lexeme = t.lexeme
  raw : ∀ {t u}, token t u → u.raw = t.raw
  self : ∀ {t u}, token t u → token t t
  named : ∀ {t u text}, token t u → t.lexeme = .identifier text → name text
  sees : ∀ {s hands apart p q}, Holds s hands apart p q → p.Seen token q
  bound : ∀ {s hands apart p q c}, binding → Holds s hands apart p q → p.context = some c →
    c = s.context
  recalled : ∀ {s hands more apart p q}, Covers hands more → Holds s hands apart p q →
    Holds s more apart p q
  protected pure : ∀ {α} [Bears α] {s base apart p q} {a b : α} {alike : α → α → Prop},
    Holds s (base ++ trees a) apart p q → alike a a → alike a b →
    At s apart p q (pure a) (pure b) alike base
  protected bind : ∀ {α β} [Bears α] [Bears β] {s base between apart p q} {m n : ParseM α}
    {f g : α → ParseM β} {alike : α → α → Prop} {later : β → β → Prop},
    At s apart p q m n alike between →
    (∀ a b apart' p' q', m p = .ok a p' → alike a b → Holds s (between ++ trees a) apart' p' q' →
      At s apart' p' q' (f a) (g b) later base) →
    At s apart p q (m >>= f) (n >>= g) later base
  protected get : ∀ {s hands apart p q}, Holds s hands apart p q →
    At s apart p q get get (Parser.Seen token) hands
  changed : ∀ {s hands apart p q} {change change' : Parser → Parser}, Holds s hands apart p q →
    p.Unmoved (change p) → q.Unmoved (change' q) → (change p).Concurs (change' q) →
    (∀ t, (change p).coverInitialized = some t → token t t) →
    At s apart p q (modify change) (modify change') Eq hands
  relocated : ∀ {s hands apart p q}, Holds s hands apart p q →
    At s apart p q (modify fun r => { r with last := r.start })
      (modify fun r => { r with last := r.start }) Eq hands
  protected lex : ∀ {s hands apart p q}, Holds s hands apart p q →
    At s apart p q Parse.lex Parse.lex (fun given given' => given = p.lookahead ∧
      ∀ t, given = some t → ∃ u, given' = some u ∧ token t u) hands
  protected rescan : ∀ {s hands apart p q t}, Holds s hands apart p q → p.lookahead = some t →
    t.IsSlash → At s apart p q Parse.rescan Parse.rescan
      (fun r r' => r.pattern = r'.pattern ∧ r.flags = r'.flags ∧ r.raw = r'.raw) hands
  other : ∀ {α} [Bears α] {s hands base apart p q fault} {n : ParseM α} {alike : α → α → Prop},
    Holds s hands apart p q → (∀ line text, fault ≠ .malformed line text) →
    At s apart p q (throw fault) n alike base
  blames : ∀ {α} [Bears α] {s hands base apart p q t} {n : ParseM α} {alike : α → α → Prop}
    (message : Option Message), Holds s hands apart p q → (∀ known, t = some known → token known known) →
    At s apart p q (Parse.complainOf t message) n alike base
  complains : ∀ {α} [Bears α] {s hands base apart p q} {n : ParseM α} {alike : α → α → Prop}
    (message : Message) (values : List Text), Holds s hands apart p q →
    At s apart p q (Parse.complain message values) n alike base
  exhausted : ∀ {α} [Bears α] {s base apart p q} {m n : ParseM α} {alike : α → α → Prop},
    At s apart p q m n alike base → At s apart p q m (throw .exhausted) alike base

namespace Comparison

/-- The same answer on both sides, of which something is known. -/
def Same (answers : α → Prop) (a b : α) : Prop :=
  a = b ∧ answers a

/-- From wherever the comparison holds, and given trees that are to be part of the answer, the
computations give answers that are alike. -/
def Takes [Bears α] (d : Comparison) (s : Situation) (given : List Node) (m n : ParseM α)
    (alike : α → α → Prop) : Prop :=
  ∀ base apart p q, d.Holds s (base ++ given) apart p q → d.At s apart p q m n alike base

/-- The computations give the same answer, of which something is known. -/
abbrev Upholds [Bears α] (d : Comparison) (s : Situation) (m n : ParseM α) (answers : α → Prop) : Prop :=
  d.Takes s [] m n (Same answers)

/-- The same for computations whose answer does not matter. -/
abbrev Maintains (d : Comparison) (s : Situation) (m n : ParseM α) : Prop :=
  @Upholds α Bears.none d s m n fun _ => True

/-- The comparison is maintained wherever the computation is run on both sides. -/
class Idle (d : Comparison) (m : ParseM α) : Prop where
  maintains : ∀ {s}, d.Maintains s m m

namespace Takes

variable [Bears α] [Bears β] {d : Comparison} {s : Situation} {given used rest : List Node}
variable {m n m' n' : ParseM α} {f g : α → ParseM β} {answers wider : α → Prop} {met : β → Prop}
variable {alike : α → α → Prop} {later : β → β → Prop}

/-- Trees that are not needed yet are kept in hand. -/
theorem at_base (takes : d.Takes s [] m n alike) {hands : List Node} {apart : Bool} {p q : Parser}
    (holds : d.Holds s hands apart p q) : d.At s apart p q m n alike hands :=
  takes hands apart p q (by rwa [List.append_nil])

theorem of_covers (kept : Covers given used) (takes : d.Takes s used m n alike) :
    d.Takes s given m n alike :=
  fun base apart p q holds => takes base apart p q (d.recalled (kept.append base) holds)

theorem via (first : d.Takes s used m n alike) (kept : Covers given (rest ++ used))
    (next : ∀ a b, alike a b → d.Takes s (rest ++ trees a) (f a) (g b) later) :
    d.Takes s given (m >>= f) (n >>= g) later := by
  intro base apart p q holds
  have holds' := d.recalled (kept.append base) holds
  rw [← List.append_assoc] at holds'
  apply d.bind (first (base ++ rest) apart p q holds')
  intro a b apart' p' q' _ same held
  rw [List.append_assoc] at held
  exact next a b same base apart' p' q' held

theorem bindVia (first : d.Takes s [] m n alike)
    (next : ∀ a b, alike a b → d.Takes s (given ++ trees a) (f a) (g b) later) :
    d.Takes s given (m >>= f) (n >>= g) later :=
  first.via (.of_mem fun _ => List.mem_append_left []) next

theorem bind (first : d.Upholds s m n answers)
    (next : ∀ a, answers a → d.Takes s (given ++ trees a) (f a) (g a) later) :
    d.Takes s given (m >>= f) (n >>= g) later := by
  refine first.bindVia ?_
  rintro a _ ⟨rfl, answered⟩
  exact next a answered

theorem learn {γ : Type} {m n : ParseM γ} {f g : γ → ParseM β} {answers : γ → Prop}
    (first : @Upholds γ Bears.none d s m n answers)
    (next : ∀ a, answers a → d.Takes s given (f a) (g a) later) :
    d.Takes s given (m >>= f) (n >>= g) later := by
  refine @bind γ β Bears.none _ d s given m n f g _ later first fun a answered => ?_
  rw [trees_none, List.append_nil]
  exact next a answered

theorem past {γ : Type} {m n : ParseM γ} {f g : γ → ParseM β} (first : d.Maintains s m n)
    (next : ∀ a, d.Takes s given (f a) (g a) later) : d.Takes s given (m >>= f) (n >>= g) later :=
  first.learn fun a _ => next a

theorem after {γ : Type} {m : ParseM γ} {f g : γ → ParseM β} [idle : Idle d m]
    (next : ∀ a, d.Takes s given (f a) (g a) later) : d.Takes s given (m >>= f) (m >>= g) later :=
  past idle.maintains next

theorem skip {γ : Type} {m : ParseM γ} {n n' : ParseM β} [Idle d m] (rest : d.Takes s given n n' later) :
    d.Takes s given (m >>= fun _ => n) (m >>= fun _ => n') later :=
  after fun _ => rest

theorem passVia (first : d.Takes s given m n alike)
    (next : ∀ a b, alike a b → d.Takes s (trees a) (f a) (g b) later) :
    d.Takes s given (m >>= f) (n >>= g) later :=
  first.via (show Covers given ([] ++ given) from .refl) next

theorem pass (first : d.Takes s given m n (Same answers))
    (next : ∀ a, answers a → d.Takes s (trees a) (f a) (g a) later) :
    d.Takes s given (m >>= f) (n >>= g) later := by
  refine first.passVia ?_
  rintro a _ ⟨rfl, answered⟩
  exact next a answered

theorem give {a b : α} (self : alike a a) (same : alike a b) (kept : Covers given (trees a)) :
    d.Takes s given (pure a) (pure b) alike :=
  fun base _ _ _ holds => d.pure (d.recalled (kept.append base) holds) self same

theorem pure {a : α} (answered : answers a) (kept : Covers given (trees a)) :
    d.Takes s given (pure a) (pure a) (Same answers) :=
  give ⟨rfl, answered⟩ ⟨rfl, answered⟩ kept

theorem built {node : Node} {answers : Node → Prop} (answered : answers node)
    (kept : ∀ part ∈ given, part ∈ node.parts.map Prod.snd) :
    d.Takes s given (Pure.pure node) (Pure.pure node) (Same answers) :=
  pure answered (.of_parts kept)

theorem wrap {node : Node} (plain : node.isPlain = true) (parts : node.parts.map Prod.snd = given)
    (closed : ∀ part ∈ given, d.expression part) :
    d.Takes s given (Pure.pure node) (Pure.pure node) (Same d.expression) :=
  built (d.plain plain (by rwa [Node.usedParts_of_isPlain plain, parts])) (by simp [parts])

theorem compound {node : Node} (compound : node.isCompound = true) (parts : node.parts.map Prod.snd = given)
    (stated : ∀ part ∈ given, d.statement s.context part) :
    d.Takes s given (Pure.pure node) (Pure.pure node) (Same (d.statement s.context)) :=
  built (d.compound compound (by rwa [Node.usedParts_of_isCompound compound, parts])) (by simp [parts])

theorem optional {m n : ParseM Node} {answers : Node → Prop} (upholds : d.Upholds s m n answers) :
    d.Upholds s (some <$> m) (some <$> n) fun found => ∀ node ∈ found, answers node := by
  rw [← bind_pure_comp, ← bind_pure_comp]
  exact upholds.bind fun node answered => pure (by simpa using answered) .refl

theorem missing {answers : Node → Prop} : d.Upholds s (Pure.pure none) (Pure.pure none)
    fun found : Option Node => ∀ node ∈ found, answers node :=
  pure (by simp) .nil

theorem throw {fault : Fault} (other : ∀ line text, fault ≠ .malformed line text) :
    d.Takes s given (throw fault : ParseM α) n alike :=
  fun _ _ _ _ holds => d.other holds other

theorem unsupported {feature : String} : d.Takes s given (Parse.unsupported feature) n alike :=
  throw (by simp)

theorem complainOf {token : Option Token} (known : ∀ t, token = some t → d.token t t)
    {message : Option Message} : d.Takes s given (Parse.complainOf token message) n alike :=
  fun _ _ _ _ holds => d.blames message holds known

theorem unexpectedAs {t u : Token} (known : d.token t u) {message : Option Message} :
    d.Takes s given (Parse.unexpectedAs t message) n alike :=
  complainOf (by simpa using d.self known)

theorem unexpected {t u : Token} (known : d.token t u) : d.Takes s given (Parse.unexpected t) n alike :=
  unexpectedAs known

theorem illegal : d.Takes s given Parse.illegal n alike :=
  complainOf (by simp)

theorem complain {message : Message} {values : List Text} :
    d.Takes s given (Parse.complain message values) n alike :=
  fun _ _ _ _ holds => d.complains message values holds

theorem dite {c : Prop} [Decidable c] (yes : c → d.Takes s given m n alike)
    (no : ¬c → d.Takes s given m' n' alike) :
    d.Takes s given (if c then m else m') (if c then n else n') alike := by
  split
  next met => exact yes met
  next unmet => exact no unmet

theorem ite {c : Prop} [Decidable c] (yes : d.Takes s given m n alike)
    (no : d.Takes s given m' n' alike) :
    d.Takes s given (if c then m else m') (if c then n else n') alike :=
  dite (fun _ => yes) fun _ => no

/-- A test that disturbs nothing decides how both go on. -/
theorem fork {test : ParseM Bool} [Idle d test] (yes : d.Takes s given m n alike)
    (no : d.Takes s given m' n' alike) :
    d.Takes s given (test >>= fun b => if b then m else m') (test >>= fun b => if b then n else n') alike :=
  .after fun _ => .ite yes no

theorem joined {next : Prop} (whole : next → d.Takes s given m n alike) (met : next) :
    d.Takes s given m n alike :=
  whole met

theorem imp (takes : d.Takes s given m n (Same answers)) (weaker : ∀ a, answers a → wider a) :
    d.Takes s given m n (Same wider) := by
  have next := takes.pass fun a answered => pure (weaker a answered) .refl
  rwa [bind_pure, bind_pure] at next

theorem lifted {m n : ParseM Node} (takes : d.Takes s given m n (Same d.expression)) :
    d.Takes s given m n (Same (d.statement s.context)) :=
  takes.imp fun _ => d.lift

theorem get {f g : Parser → ParseM α}
    (next : ∀ p q, p.Seen d.token q → d.Takes s given (f p) (g q) alike) :
    d.Takes s given (get >>= f) (get >>= g) alike := by
  intro base apart p q holds
  apply d.bind (d.get holds)
  intro p' q' _ _ _ _ seen held
  exact next p' q' seen base _ _ _ (d.recalled (.of_mem (by simp)) held)

theorem step {m n : ParseM Unit}
    (whole : ∀ hands apart p q, d.Holds s hands apart p q → d.At s apart p q m n Eq hands) :
    d.Maintains s m n := by
  intro base apart p q holds
  rw [List.append_nil] at holds
  have next : d.At s apart p q (m >>= Pure.pure) (n >>= Pure.pure) (Same fun _ => True) base := by
    apply d.bind (whole base apart p q holds)
    intro _ _ _ _ _ _ _ held
    exact d.pure held ⟨rfl, trivial⟩ ⟨rfl, trivial⟩
  rwa [bind_pure, bind_pure] at next

theorem modifyBoth {change change' : Parser → Parser} (unmoved : ∀ p : Parser, p.Unmoved (change p))
    (unmoved' : ∀ q : Parser, q.Unmoved (change' q))
    (concurs : ∀ {p q : Parser}, p.Concurs q → (change p).Concurs (change' q))
    (cover : ∀ p : Parser, (∀ t, p.coverInitialized = some t → d.token t t) →
      ∀ t, (change p).coverInitialized = some t → d.token t t) :
    d.Maintains s (modify change) (modify change') :=
  step fun _ _ p q holds =>
    have seen := d.sees holds
    d.changed holds (unmoved p) (unmoved' q) (concurs seen.toConcurs) (cover p seen.cover)

theorem modify {change : Parser → Parser} (unmoved : ∀ p : Parser, p.Unmoved (change p))
    (concurs : ∀ {p q : Parser}, p.Concurs q → (change p).Concurs (change q))
    (cover : ∀ p t, (change p).coverInitialized = some t → p.coverInitialized = some t) :
    d.Maintains s (modify change) (modify change) :=
  modifyBoth unmoved unmoved concurs fun p known t found => known t (cover p t found)

variable {body body' : α → ParseM (α ⊕ β)}

/-- A loop that runs out of rounds is no complaint, and on the right it is excused. -/
theorem iterateVia (self : ∀ a b, later a b → later a a)
    (round : ∀ a b, alike a b → d.Takes s (trees a) (body a) (body' b) (Sum.LiftRel alike later))
    (rounds rounds' : Nat) {a b : α} (related : alike a b) :
    d.Takes s (trees a) (iterate .exhausted body rounds a) (iterate .exhausted body' rounds' b) later := by
  induction rounds generalizing rounds' a b with
  | zero => exact throw (by simp)
  | succ rounds ih =>
    have whole (rounds' : Nat) : d.Takes s (trees a) (iterate .exhausted body (rounds + 1) a)
        (iterate .exhausted body' (rounds' + 1) b) later := by
      refine (round a b related).passVia fun answer answer' alike' => ?_
      cases alike' with
      | inl related' => exact ih rounds' related'
      | inr related' => exact fun _ _ _ _ holds => d.pure holds (self _ _ related') related'
    cases rounds' with
    | zero => exact fun base apart p q holds => d.exhausted (whole 0 base apart p q holds)
    | succ rounds' => exact whole rounds'

theorem repeatedVia (self : ∀ a b, later a b → later a a)
    (round : ∀ a b, alike a b → d.Takes s (trees a) (body a) (body' b) (Sum.LiftRel alike later))
    {a b : α} (related : alike a b) :
    d.Takes s (trees a) (Parse.repeated body a) (Parse.repeated body' b) later :=
  get fun _ _ _ => iterateVia self round _ _ related

theorem iterate (holds : α → Prop)
    (round : ∀ a, holds a → d.Takes s (trees a) (body a) (body' a) (Same (Sum.elim holds met)))
    (rounds rounds' : Nat) {a : α} (holds_a : holds a) :
    d.Takes s (trees a) (EcmaScript.iterate .exhausted body rounds a)
      (EcmaScript.iterate .exhausted body' rounds' a) (Same met) := by
  have start : Same holds a a := ⟨rfl, holds_a⟩
  refine iterateVia (fun a b same => ⟨rfl, same.2⟩) ?_ _ _ start
  rintro a _ ⟨rfl, holds_a⟩ base apart p q held
  have next := d.bind (round a holds_a base apart p q held) fun answer answer' _ _ _ _ same held' => by
    obtain ⟨rfl, answered⟩ := same
    have related : Sum.LiftRel (Same holds) (Same met) answer answer := by
      cases answer with
      | inl next => exact .inl ⟨rfl, answered⟩
      | inr found => exact .inr ⟨rfl, answered⟩
    exact d.pure held' related related
  rwa [bind_pure, bind_pure] at next

theorem repeated (holds : α → Prop)
    (round : ∀ a, holds a → d.Takes s (trees a) (body a) (body' a) (Same (Sum.elim holds met)))
    {a : α} (holds_a : holds a) :
    d.Takes s (trees a) (Parse.repeated body a) (Parse.repeated body' a) (Same met) :=
  get fun _ _ _ => iterate holds round _ _ holds_a

theorem collected {body body' : α → ParseM (α ⊕ α)} (holds : α → Prop)
    (round : ∀ a, holds a → d.Takes s (trees a) (body a) (body' a) (Same (Sum.elim holds holds)))
    {a : α} (holds_a : holds a) :
    d.Takes s (trees a) (Parse.repeated body a) (Parse.repeated body' a) (Same holds) :=
  repeated holds round holds_a

end Takes

variable {d : Comparison} {s : Situation} {given hands base : List Node} {apart : Bool} {p q : Parser}
variable {m n : ParseM α} {answers : α → Prop} {alike : α → α → Prop}

open Parse

/-! ### Registers -/

theorem context_upholds : d.Upholds s context context fun c => d.binding → c = s.context := by
  intro base apart p q holds
  rw [List.append_nil] at holds
  have known {c : Context} (found : p.context = some c) (binding : d.binding) : c = s.context :=
    d.bound binding holds found
  apply d.bind (d.get holds)
  intro a b _ _ _ run seen held
  cases run
  rw [← seen.context]
  cases found : p.context with
  | some c => exact d.pure held ⟨rfl, known found⟩ ⟨rfl, known found⟩
  | none => exact d.other held (by simp)

instance isStrict_idle : d.Idle isStrict where
  maintains := by
    refine .get fun p q seen => ?_
    rw [Parser.isStrict, Parser.isStrict, seen.strict]
    exact .pure trivial .refl

theorem lookahead_at [Bears α] {f g : Token → ParseM α} (holds : d.Holds s hands apart p q)
    (next : ∀ t u apart' q', p.lookahead = some t → d.token t u → d.Holds s hands apart' p q' →
      d.At s apart' p q' (f t) (g u) alike base) :
    d.At s apart p q (lookahead >>= f) (lookahead >>= g) alike base := by
  have found : d.At s apart p q lookahead lookahead d.token hands := by
    apply d.bind (d.get holds)
    intro a b _ _ _ _ seen held
    cases looked : a.lookahead with
    | none => exact d.other held (by simp)
    | some t =>
      obtain ⟨u, looked', stands⟩ := seen.lookahead t looked
      rw [looked']
      exact d.pure held (d.self stands) stands
  apply d.bind found
  intro t u apart' p' q' run stands held
  obtain ⟨rfl, looked⟩ := (lookahead_returns p).of_ok run
  exact next t u apart' q' looked stands (d.recalled (.of_mem (by simp)) held)

theorem Takes.looking [Bears α] {f g : Token → ParseM α}
    (next : ∀ t u, d.token t u → u.lexeme = t.lexeme → d.Takes s given (f t) (g u) alike) :
    d.Takes s given (lookahead >>= f) (lookahead >>= g) alike :=
  fun base _ _ _ holds => lookahead_at holds fun t u apart' q' _ stands held =>
    next t u stands (d.lexeme stands) base apart' _ q' held

/-! ### Tokens -/

theorem take_at {token : Token} (holds : d.Holds s hands apart p q) (looked : p.lookahead = some token) :
    d.At s apart p q take take (fun given given' => given = token ∧ d.token given given') hands := by
  apply d.bind (d.lex holds)
  rintro _ given' _ _ _ _ ⟨rfl, copied⟩ held
  obtain ⟨u, rfl, stands⟩ := copied token looked
  rw [looked]
  exact d.pure (d.recalled (.of_mem (by simp)) held) ⟨rfl, d.self stands⟩ ⟨rfl, stands⟩

theorem Takes.taking [Bears α] {f g : Token → ParseM α}
    (next : ∀ t u, d.token t u → u.lexeme = t.lexeme → d.Takes s given (f t) (g u) alike) :
    d.Takes s given (take >>= f) (take >>= g) alike := by
  intro base apart p q holds
  simp only [take, bind_assoc]
  apply d.bind (d.lex holds)
  rintro lexed given' apart' p' q' _ ⟨-, copied⟩ held
  cases lexed with
  | none => exact d.other held (by simp)
  | some t =>
    obtain ⟨u, rfl, stands⟩ := copied t rfl
    exact next t u stands (d.lexeme stands) base apart' p' q' (d.recalled (.of_mem (by simp)) held)

instance drop_idle : d.Idle drop where
  maintains := by
    intro _ base apart p q holds
    apply d.bind (d.lex holds)
    intro _ _ _ _ _ _ _ held
    exact d.pure (d.recalled (.of_mem (by simp)) held) ⟨rfl, trivial⟩ ⟨rfl, trivial⟩

theorem test_maintains (test : Lexeme → β) :
    d.Maintains s (do return test (← lookahead).lexeme) (do return test (← lookahead).lexeme) := by
  refine .looking fun t u _ same => ?_
  rw [same]
  exact .pure trivial .refl

instance atMark_idle (mark : Punctuator) : d.Idle (atMark mark) :=
  ⟨test_maintains fun lexeme => decide (lexeme = .punctuator mark)⟩

instance atKeyword_idle (word : Keyword) : d.Idle (atKeyword word) :=
  ⟨test_maintains fun lexeme => decide (lexeme = .keyword word)⟩

theorem demand_maintains (lexeme : Lexeme) : d.Maintains s
    (do let token ← take; if token.lexeme = lexeme then pure () else unexpected token)
    (do let token ← take; if token.lexeme = lexeme then pure () else unexpected token) := by
  refine .taking fun t u known same => ?_
  rw [same]
  exact .ite (.pure trivial .refl) (.unexpected known)

instance expect_idle (mark : Punctuator) : d.Idle (expect mark) :=
  ⟨demand_maintains (.punctuator mark)⟩

instance expectKeyword_idle (word : Keyword) : d.Idle (expectKeyword word) :=
  ⟨demand_maintains (.keyword word)⟩

/-! ### Cover grammar -/

instance expressionOnly_idle : d.Idle expressionOnly :=
  ⟨.modify (fun p => p.unmoved_cover _ _ _)
    (fun concurs => { concurs with bindingElement := rfl, assignmentTarget := rfl }) fun _ _ => id⟩

instance openCover_idle : d.Idle openCover :=
  ⟨.modify (fun p => p.unmoved_cover _ _ _) (fun concurs =>
    { concurs with bindingElement := rfl, assignmentTarget := rfl, covered := rfl }) fun _ _ => nofun⟩

section

variable [Bears α]

theorem Takes.isolated (takes : d.Takes s given m n (Same answers)) :
    d.Takes s given (Parse.isolated m) (Parse.isolated n) (Same answers) := by
  refine .get fun before before' same => .after fun _ => ?_
  refine takes.pass fun result answered => .get fun p q seen => ?_
  cases found : p.coverInitialized with
  | some token => exact .unexpected (seen.cover token found)
  | none =>
    -- There is nothing on the right either that only a target could hold.
    have found' : q.coverInitialized = none := by simpa [found] using seen.covered
    rw [found']
    refine .past (.modifyBoth (fun p => p.unmoved_cover _ _ _) (fun p => p.unmoved_cover _ _ _)
      (fun concurs => ?_) fun _ _ => same.cover) fun _ => .pure answered .refl
    exact { concurs with
      bindingElement := same.bindingElement
      assignmentTarget := same.assignmentTarget
      covered := same.covered }

theorem Takes.inherited (takes : d.Takes s given m n (Same answers)) :
    d.Takes s given (Parse.inherited m) (Parse.inherited n) (Same answers) := by
  refine .get fun before before' same => .after fun _ => ?_
  refine takes.pass fun result answered => .past (.modifyBoth (fun p => p.unmoved_cover _ _ _)
    (fun p => p.unmoved_cover _ _ _) ?_ ?_) fun _ => .pure answered .refl
  · intro p q concurs
    refine { concurs with bindingElement := ?_, assignmentTarget := ?_, covered := ?_ }
    · show both p.bindingElement before.bindingElement = both q.bindingElement before'.bindingElement
      rw [concurs.bindingElement, same.bindingElement]
    · show both p.assignmentTarget before.assignmentTarget =
        both q.assignmentTarget before'.assignmentTarget
      rw [concurs.assignmentTarget, same.assignmentTarget]
    · show (before.coverInitialized.or p.coverInitialized).isSome =
        (before'.coverInitialized.or q.coverInitialized).isSome
      rw [Option.isSome_or, Option.isSome_or, same.covered, concurs.covered]
  · intro p known token found
    rcases Option.or_eq_some_iff.mp found with first | ⟨-, second⟩
    · exact same.cover token first
    · exact known token second

end

end Comparison

end EcmaScript
