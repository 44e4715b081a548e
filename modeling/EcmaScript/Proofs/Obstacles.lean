import EcmaScript.Proofs.FormedStatements
import EcmaScript.Proofs.Postfix

/-!
What keeps a program from having code. Compilation comes upon nodes of unknown types, and upon literals that
have no code where code is to be joined; the first of these obstacles decides how it fails. Main statement: a
program that was read has code if and only if there are none, and no other fault is possible.
-/

namespace EcmaScript

inductive Obstacle where
  | unknown (type : Text)
  | joining
  deriving DecidableEq, Repr

def Obstacle.fault : Obstacle → Fault
  | unknown type => .refused (Text.ofString "Unknown node: " ++ type)
  | joining => .wrongType

namespace Node

def type (n : Node) : Text :=
  match n.attributes.get? "type" with
  | some (.text type) => type
  | _ => []

/-- Literals other than strings in double quotes. -/
def isCodeless : Node → Bool
  | literal _ raw => raw.head? != some 0x22
  | _ => false

/-- Calls, members, names and literals, where no literal without code is called, owns a property or is
one. -/
def isCompilable : Node → Bool
  | identifier _ | literal .. => true
  | memberExpression _ object member =>
    isCompilable object && isCompilable member && !object.isCodeless && !member.isCodeless
  | callExpression callee arguments =>
    isCompilable callee && (arguments.map isCompilable).all id && !callee.isCodeless
  | _ => false

/-- The code of the node cannot be joined to other code. -/
def unjoined (n : Node) : List Obstacle :=
  if n.isCodeless then [.joining] else []

/-- What compilation comes upon in an expression, in the order of evaluation: operands first. -/
def obstacles : Node → List Obstacle
  | identifier _ | literal .. => []
  | memberExpression _ object member =>
    obstacles object ++ (obstacles member ++ (object.unjoined ++ member.unjoined))
  | callExpression callee arguments =>
    obstacles callee ++ (arguments.flatMap obstacles ++ callee.unjoined)
  | node => [.unknown node.type]

/-- What compilation comes upon in a statement. -/
def statementObstacles : Node → List Obstacle
  | expressionStatement e => e.obstacles
  | node => [.unknown node.type]

theorem isCompilable_iff (n : Node) : n.isCompilable = true ↔ n.obstacles = [] := by
  fun_induction obstacles n <;> simp_all [isCompilable, unjoined, and_assoc]

theorem statementObstacles_eq_nil_iff (n : Node) :
    n.statementObstacles = [] ↔ ∃ e, n = .expressionStatement e ∧ e.isCompilable = true := by
  cases n <;> simp [statementObstacles, isCompilable_iff]

/-- The code of an expression: a block, or nothing for some literals. -/
def HasCode (n : Node) (code : Code) : Prop :=
  if n.isCodeless then code = .nothing else ∃ items, code = .block items

end Node

namespace Bytecode

open Node

variable {α β : Type} {m : Except Fault α} {found : List Obstacle} {ends : α → Prop}

/-- A run that comes upon these obstacles: it has a result if there are none, and otherwise the first of them
is its fault. -/
def Settles (m : Except Fault α) (found : List Obstacle) (ends : α → Prop) : Prop :=
  match found with
  | [] => ∃ a, m = .ok a ∧ ends a
  | first :: _ => m = .error first.fault

theorem Settles.bind {f : α → Except Fault β} {later : List Obstacle} {last : β → Prop}
    (first : Settles m found ends) (rest : ∀ a, ends a → Settles (f a) later last) :
    Settles (m >>= f) (found ++ later) last := by
  cases found with
  | nil =>
    obtain ⟨a, rfl, met⟩ := first
    exact rest a met
  | cons obstacle others =>
    obtain rfl : m = .error obstacle.fault := first
    rfl

theorem Settles.map {f : α → β} {last : β → Prop} (first : Settles m found ends)
    (rest : ∀ a, ends a → last (f a)) : Settles (m >>= fun a => pure (f a)) found last :=
  List.append_nil found ▸ first.bind fun a met => ⟨f a, rfl, rest a met⟩

theorem Settles.mono {last : α → Prop} (settled : Settles m found ends) (weaker : ∀ a, ends a → last a) :
    Settles m found last :=
  bind_pure m ▸ settled.map weaker

theorem Settles.ok_iff (settled : Settles m found ends) : (∃ a, m = .ok a) ↔ found = [] := by
  cases found with
  | nil => exact ⟨fun _ => rfl, fun _ => settled.imp fun _ => And.left⟩
  | cons obstacle others =>
    obtain rfl : m = .error obstacle.fault := settled
    exact ⟨nofun, nofun⟩

theorem Settles.of_ok {a : α} (settled : Settles m found ends) (returned : m = .ok a) : ends a := by
  obtain rfl := settled.ok_iff.1 ⟨a, returned⟩
  obtain ⟨b, same, met⟩ := settled
  obtain rfl : a = b := Except.ok.inj (returned.symm.trans same)
  exact met

theorem Settles.of_error {fault : Fault} (settled : Settles m found ends) (failed : m = .error fault) :
    ∃ obstacle others, found = obstacle :: others ∧ fault = obstacle.fault := by
  cases found with
  | nil =>
    obtain ⟨a, same, -⟩ := settled
    cases failed.symm.trans same
  | cons obstacle others => exact ⟨obstacle, others, rfl, Except.error.inj (failed.symm.trans settled)⟩

theorem itemsOf_settles {n : Node} {code : Code} (coded : n.HasCode code) :
    Settles (itemsOf code) n.unjoined fun _ => True := by
  unfold HasCode at coded
  unfold unjoined
  split at coded
  next codeless =>
    rw [if_pos codeless, coded]
    rfl
  next joined =>
    obtain ⟨items, rfl⟩ := coded
    rw [if_neg joined]
    exact ⟨items, rfl, trivial⟩

/-- Nodes are compiled one after the other. -/
theorem compileEach_settles {nodes : List Node} {obstacles : Node → List Obstacle} {ends : Node → Code → Prop}
    (each : ∀ n ∈ nodes, Settles (compile n.toValue.plain) (obstacles n) (ends n)) :
    Settles (compileEach (Value.plain.plainItems (Node.listValues nodes))) (nodes.flatMap obstacles)
      fun codes => codes.length = nodes.length := by
  induction nodes with
  | nil => exact ⟨[], rfl, rfl⟩
  | cons n rest ih =>
    obtain ⟨first, others⟩ := List.forall_mem_cons.1 each
    refine first.bind fun code _ => (ih others).map fun codes counted => ?_
    rw [List.length_cons, counted, List.length_cons]

variable {r : Regime} {c : Prop} {k : Category} {n : Node}

theorem identifier_settles (name : Text) :
    Settles (compile (Node.identifier name).toValue.plain) (Node.identifier name).obstacles
      (Node.identifier name).HasCode := by
  rw [obstacles]
  exact ⟨_, rfl, _, rfl⟩

/-- Of the literals only strings start with a double quote, so that there is a text to push. -/
theorem literal_settles {value : Literal} {raw : Text} (shown : value.ShownBy raw) :
    Settles (compile (Node.literal value raw).toValue.plain) (Node.literal value raw).obstacles
      (Node.literal value raw).HasCode := by
  obtain ⟨first, rest, rfl, quoted⟩ := shown
  rw [obstacles]
  by_cases quote : first = 0x22
  · obtain ⟨text, rfl⟩ := quoted quote
    subst quote
    exact ⟨_, rfl, _, rfl⟩
  · refine ⟨.nothing, ?_, ?_⟩
    · rw [compile_literal ⟨rfl, rfl⟩]
      show (Except.ok (decide (first = 0x22)) >>= fun quoted =>
        if quoted then _ else pure Code.nothing) = _
      rw [decide_eq_false quote]
      rfl
    · simp [HasCode, isCodeless, quote]

theorem member_settles {computed : Bool} {object member : Node}
    (first : Settles (compile object.toValue.plain) object.obstacles object.HasCode)
    (second : Settles (compile member.toValue.plain) member.obstacles member.HasCode) :
    Settles (compile (memberExpression computed object member).toValue.plain)
      (memberExpression computed object member).obstacles
      (memberExpression computed object member).HasCode := by
  rw [compile_member ⟨rfl, rfl⟩, compileAt_eq rfl, compileAt_eq rfl, obstacles]
  refine first.bind fun owner owned => second.bind fun key keyed => ?_
  exact (itemsOf_settles owned).bind fun _ _ => (itemsOf_settles keyed).map fun _ _ => ⟨_, rfl⟩

/-- An expression is compiled after its operands, and those that it joins have to have code. -/
theorem expression_settles (formed : Formed r c k n) (expression : k = .expression) :
    Settles (compile n.toValue.plain) n.obstacles n.HasCode := by
  induction formed with
  | identifier name => exact identifier_settles name
  | literal shown _ => exact literal_settles shown
  | dottedMember _ name ih => exact member_settles (ih rfl) (identifier_settles name)
  | computedMember _ _ object_ih key_ih => exact member_settles (object_ih rfl) (key_ih rfl)
  | callExpression _ _ callee_ih arguments_ih =>
    rw [compile_call ⟨rfl, rfl⟩, compileAt_eq rfl, compileAll_eq rfl, obstacles]
    refine (callee_ih rfl).bind fun target aimed => ?_
    refine (compileEach_settles fun n mem => arguments_ih n mem rfl).bind fun _ _ => ?_
    exact (itemsOf_settles aimed).map fun _ _ => ⟨_, rfl⟩
  | binaryExpression operator =>
    rw [obstacles]
    -- Logical operators have a type of their own.
    · cases operator <;> rfl
    all_goals exact nofun
  | thisExpression | arrayExpression | objectExpression | functionExpression | unaryExpression
  | updateExpression | assignmentExpression | operationExpression | conditionalExpression
  | sequenceExpression | newExpression =>
    rw [obstacles]
    · rfl
    all_goals exact nofun
  | _ => cases expression

theorem statement_settles (formed : Formed r c .statement n) :
    Settles (compile n.toValue.plain) n.statementObstacles fun _ => True := by
  cases formed with
  | expressionStatement expression =>
    rw [compile_statement ⟨rfl, rfl⟩, compileAt_eq rfl]
    exact (expression_settles expression rfl).mono fun _ _ => trivial
  | _ => exact rfl

theorem program_settles {body : List Node} (formed : Formed r c .program (.program body)) :
    Settles (compile (program body).toValue.plain) (body.flatMap statementObstacles) fun code =>
      ∃ items, code = .block items ∧ items.length = body.length := by
  obtain @⟨_, _, statements⟩ := formed
  rw [compile_program ⟨rfl, rfl⟩, compileAll_eq rfl]
  exact (compileEach_settles fun n mem => statement_settles (statements n mem)).map
    fun codes counted => ⟨codes, rfl, counted⟩

/-- When a program that was read has code: its statements are expressions of calls, members, names and
literals, and no literal without code is called or is a part of a member. There is one piece of code for each
statement then. Otherwise the first obstacle is the fault: a node of another type, which the fault names, or a
literal whose code was to be joined. -/
theorem parse_compiles {settings : Settings} {code : Text} {root : Node}
    (parsed : parse settings code = .ok root) :
    ∃ body, root = .program body ∧
      ((∃ compiled, compile root.toValue.plain = .ok compiled) ↔
        ∀ n ∈ body, ∃ e, n = .expressionStatement e ∧ e.isCompilable = true) ∧
      (∀ compiled, compile root.toValue.plain = .ok compiled →
        ∃ items, compiled = .block items ∧ items.length = body.length) ∧
      ∀ fault, compile root.toValue.plain = .error fault →
        ∃ obstacle others, body.flatMap statementObstacles = obstacle :: others ∧ fault = obstacle.fault := by
  have formed := parse_formed parsed
  obtain ⟨body, rfl⟩ : ∃ body, root = .program body := by
    cases formed
    exact ⟨_, rfl⟩
  have settled := program_settles formed
  refine ⟨body, rfl, ?_, fun _ => settled.of_ok, fun _ => settled.of_error⟩
  rw [settled.ok_iff, List.flatMap_eq_nil_iff]
  exact forall₂_congr fun n _ => statementObstacles_eq_nil_iff n

theorem joining_parsed : (match parse {} (Text.ofString "1[x];this") with
    | .ok (.program [.expressionStatement (.memberExpression _ (.literal _ [0x31]) (.identifier _)),
        .expressionStatement .thisExpression]) => true
    | _ => false) = true := by decide +kernel

/-- In `1[x];this` there is nothing to join `x` to, and `this` is not reached. -/
theorem parse_compiles_joining :
    ∃ root, parse {} (Text.ofString "1[x];this") = .ok root ∧
      compile root.toValue.plain = .error .wrongType := by
  have shape := joining_parsed
  split at shape
  case h_2 => cases shape
  next parsed =>
    obtain ⟨body, same, returns, -, fails⟩ := parse_compiles parsed
    cases same
    refine ⟨_, parsed, ?_⟩
    cases outcome : compile (Value.plain _) with
    | ok compiled => simpa [isCompilable] using returns.1 ⟨compiled, outcome⟩
    | error fault =>
      obtain ⟨obstacle, others, found, rfl⟩ := fails fault outcome
      simp [statementObstacles, obstacles, unjoined, isCodeless] at found
      rw [← found.1, Obstacle.fault]

end Bytecode
end EcmaScript
