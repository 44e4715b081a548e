import Mathlib.Data.List.Forall2
import EcmaScript.Bytecode

/-!
Code is a postfix form. It is compiled from trees of names and double-quoted strings that are joined by
members and calls; flattened, it lists the parts of such a tree before the instruction that joins them, so
that a machine with a stack of trees builds the tree again from its code. Main statement: the machine comes
to the end of the code without ever missing an operand, and the tree is all that it leaves on the stack.
-/

namespace EcmaScript

open List

/-! ### Trees that have code -/

/-- Names and strings, joined by members and calls. How a member is written and how a string is spelled is
left out. -/
inductive Chain where
  | name (text : Text)
  | string (value : Text)
  | member (object property : Chain)
  | call (callee : Chain) (arguments : List Chain)

namespace Value

/-- The value has these attributes, and they name its type. -/
def Is (v : Value) (type : String) (attributes : Attributes) : Prop :=
  v.attributes? = some attributes ∧ attributes.get? "type" = some (.ofString type)

mutual

/-- The attribute tree is one of those that have code. There may be more attributes, in any order. -/
inductive Shows : Value → Chain → Prop
  | identifier {v : Value} {attributes : Attributes} {name : Text} (is : v.Is "Identifier" attributes)
    (named : attributes.get? "name" = some (.text name)) : Shows v (.name name)
  | literal {v : Value} {attributes : Attributes} {spelling value : Text} (is : v.Is "Literal" attributes)
    (quoted : attributes.get? "raw" = some (.text (0x22 :: spelling)))
    (valued : attributes.get? "value" = some (.text value)) : Shows v (.string value)
  | member {v owner key : Value} {attributes : Attributes} {object property : Chain}
    (is : v.Is "MemberExpression" attributes) (owned : attributes.get? "object" = some owner)
    (keyed : attributes.get? "property" = some key) (first : Shows owner object)
    (second : Shows key property) : Shows v (.member object property)
  | call {v target : Value} {items : List Value} {attributes : Attributes} {callee : Chain}
    {arguments : List Chain} (is : v.Is "CallExpression" attributes)
    (aimed : attributes.get? "callee" = some target)
    (listed : attributes.get? "arguments" = some (.list items)) (first : Shows target callee)
    (others : ShowsAll items arguments) : Shows v (.call callee arguments)

inductive ShowsAll : List Value → List Chain → Prop
  | nil : ShowsAll [] []
  | cons {v : Value} {rest : List Value} {chain : Chain} {chains : List Chain} (first : Shows v chain)
    (others : ShowsAll rest chains) : ShowsAll (v :: rest) (chain :: chains)

end

/-- The attribute tree is the statement that consists of the expression. -/
def States (v : Value) (chain : Chain) : Prop :=
  ∃ attributes expression, v.Is "ExpressionStatement" attributes ∧
    attributes.get? "expression" = some expression ∧ expression.Shows chain

end Value

/-! ### The machine -/

namespace Code

mutual

/-- The instructions of nested code in their order. -/
def flatten : Code → List Instruction
  | nothing => []
  | instruction i => [i]
  | block items => flattenAll items

def flattenAll : List Code → List Instruction
  | [] => []
  | code :: rest => flatten code ++ flattenAll rest

end

def isInstruction : Code → Bool
  | instruction _ => true
  | _ => false

theorem flattenAll_append (first second : List Code) :
    flattenAll (first ++ second) = flattenAll first ++ flattenAll second := by
  induction first with
  | nil => rfl
  | cons code rest ih => rw [cons_append, flattenAll, ih, flattenAll, append_assoc]

theorem flattenAll_concat (items : List Code) (i : Instruction) :
    flattenAll (items ++ [instruction i]) = flattenAll items ++ [i] :=
  flattenAll_append items [instruction i]

end Code

namespace Chain

mutual

/-- The code of a tree. Each argument of a call is a block of its own. -/
def code : Chain → List Code
  | name text => [.instruction (.pushIdentifier text)]
  | string value => [.instruction (.pushString value)]
  | member object property => code object ++ code property ++ [.instruction .getProperty]
  | call callee arguments => code callee ++ blocks arguments ++ [.instruction (.call arguments.length)]

def blocks : List Chain → List Code
  | [] => []
  | first :: rest => .block (code first) :: blocks rest

end

theorem length_blocks (chains : List Chain) : (blocks chains).length = chains.length := by
  induction chains with
  | nil => rfl
  | cons first rest ih => rw [blocks, length_cons, ih, length_cons]

/-- No call in the tree has arguments. -/
def isBare : Chain → Bool
  | name _ | string _ => true
  | member object property => isBare object && isBare property
  | call callee arguments => isBare callee && arguments.isEmpty

/-- Code is nested where an argument is. -/
theorem all_isInstruction : ∀ chain : Chain, chain.code.all Code.isInstruction = chain.isBare
  | name _ | string _ => rfl
  | member object property => by
    simp [code, isBare, all_isInstruction object, all_isInstruction property, Code.isInstruction]
  | call callee arguments => by
    cases arguments with
    | nil => simp [code, blocks, isBare, all_isInstruction callee, Code.isInstruction]
    | cons first rest => simp [code, blocks, isBare, Code.isInstruction]

end Chain

namespace Postfix

/-- What an instruction makes of a stack of trees. Nothing comes of it where operands are missing. -/
def step (stack : List Chain) : Instruction → Option (List Chain)
  | .pushIdentifier text => some (.name text :: stack)
  | .pushString value => some (.string value :: stack)
  | .getProperty =>
    match stack with
    | property :: object :: rest => some (.member object property :: rest)
    | _ => none
  | .call (.ofNat count) =>
    match stack.drop count with
    | callee :: rest => some (.call callee (stack.take count).reverse :: rest)
    | [] => none
  | .call (.negSucc _) => none

def run : List Instruction → List Chain → Option (List Chain)
  | [], stack => some stack
  | i :: rest, stack => (step stack i).bind (run rest)

theorem run_append (first second : List Instruction) (stack : List Chain) :
    run (first ++ second) stack = (run first stack).bind (run second) := by
  induction first generalizing stack with
  | nil => rfl
  | cons i rest ih =>
    rw [cons_append, run, run, Option.bind_assoc]
    exact congrArg _ (funext ih)

theorem run_concat (code : List Instruction) (i : Instruction) (stack : List Chain) :
    run (code ++ [i]) stack = (run code stack).bind fun stack => step stack i := by
  have last (stack : List Chain) : run [i] stack = step stack i := by
    rw [run]
    cases step stack i <;> rfl
  rw [run_append]
  exact congrArg _ (funext last)

/-- A call takes its arguments off the stack, the last one first, and then the callee. -/
theorem step_call (callee : Chain) (arguments stack : List Chain) :
    step (arguments.reverse ++ callee :: stack) (.call arguments.length) =
      some (.call callee arguments :: stack) := by
  have dropped : (arguments.reverse ++ callee :: stack).drop arguments.length = callee :: stack :=
    drop_left' length_reverse
  have taken : (arguments.reverse ++ callee :: stack).take arguments.length = arguments.reverse :=
    take_left' length_reverse
  show (match List.drop arguments.length _ with
    | callee :: rest => some (Chain.call callee (List.take arguments.length _).reverse :: rest)
    | [] => none) = _
  rw [dropped, taken, reverse_reverse]

end Postfix

/-! ### Compilation -/

namespace Bytecode

open Postfix

variable {v : Value} {attributes : Attributes} {fault : Fault}

theorem get?_cons {key k : String} {part : Value} :
    Attributes.get? key ((k, part) :: attributes) =
      if k = key then some part else attributes.get? key := by
  by_cases same : k = key
  · simp [Attributes.get?, same]
  · simp [Attributes.get?, lookup_cons, same, beq_false_of_ne (Ne.symm same)]

theorem compileAt_eq {key : String} {part : Value} (found : attributes.get? key = some part) :
    compileAt fault key attributes = compile part := by
  induction attributes with
  | nil => cases found
  | cons entry rest ih =>
    obtain ⟨k, v⟩ := entry
    rw [get?_cons] at found
    rw [compileAt]
    split at found
    next same => rw [if_pos same, Option.some.inj found]
    next other => rw [if_neg other, ih found]

theorem compileAll_eq {key : String} {items : List Value}
    (found : attributes.get? key = some (.list items)) :
    compileAll fault key attributes = compileEach items := by
  induction attributes with
  | nil => cases found
  | cons entry rest ih =>
    obtain ⟨k, v⟩ := entry
    rw [get?_cons] at found
    split at found
    next same =>
      obtain rfl := Option.some.inj found
      rw [compileAll, if_pos same]
    next other =>
      have skips : compileAll fault key ((k, v) :: rest) = compileAll fault key rest := by
        cases v <;> rw [compileAll, if_neg other]
        all_goals exact nofun
      rw [skips, ih found]

theorem compile_program (is : v.Is "Program" attributes) :
    compile v = (do
      let items ← compileAll (missing v) "body" attributes
      pure (.block items)) := by
  obtain ⟨held, typed⟩ := is
  cases v <;> cases held <;> rw [compile, typed] <;> rfl

theorem compile_statement (is : v.Is "ExpressionStatement" attributes) :
    compile v = compileAt (missing v) "expression" attributes := by
  obtain ⟨held, typed⟩ := is
  cases v <;> cases held <;> rw [compile, typed] <;> rfl

theorem compile_call (is : v.Is "CallExpression" attributes) :
    compile v = (do
      let callee ← compileAt (missing v) "callee" attributes
      let args ← compileAll (missing v) "arguments" attributes
      let target ← itemsOf callee
      pure (.block (target ++ args ++ [.instruction (.call args.length)]))) := by
  obtain ⟨held, typed⟩ := is
  cases v <;> cases held <;> rw [compile, typed] <;> rfl

theorem compile_member (is : v.Is "MemberExpression" attributes) :
    compile v = (do
      let object ← compileAt (missing v) "object" attributes
      let property ← compileAt (missing v) "property" attributes
      let owner ← itemsOf object
      let key ← itemsOf property
      pure (.block (owner ++ key ++ [.instruction .getProperty]))) := by
  obtain ⟨held, typed⟩ := is
  cases v <;> cases held <;> rw [compile, typed] <;> rfl

theorem compile_identifier (is : v.Is "Identifier" attributes) :
    compile v = identifier (missing v) attributes := by
  obtain ⟨held, typed⟩ := is
  cases v <;> cases held <;> rw [compile, typed] <;> rfl

theorem compile_literal (is : v.Is "Literal" attributes) :
    compile v = literal (missing v) attributes := by
  obtain ⟨held, typed⟩ := is
  cases v <;> cases held <;> rw [compile, typed] <;> rfl

mutual

theorem compile_shows {v : Value} {chain : Chain} (shown : v.Shows chain) :
    compile v = .ok (.block chain.code) := by
  cases shown with
  | identifier is named =>
    rw [compile_identifier is, identifier, named]
    rfl
  | literal is quoted valued =>
    rw [compile_literal is, literal, quoted, valued]
    rfl
  | member is owned keyed first second =>
    rw [compile_member is, compileAt_eq owned, compileAt_eq keyed, compile_shows first, compile_shows second]
    rfl
  | call is aimed listed first others =>
    rw [compile_call is, compileAt_eq aimed, compileAll_eq listed, compile_shows first,
      compileEach_shows others, Chain.code, ← Chain.length_blocks]
    rfl

theorem compileEach_shows {items : List Value} {chains : List Chain} (shown : Value.ShowsAll items chains) :
    compileEach items = .ok (Chain.blocks chains) := by
  cases shown with
  | nil => rw [compileEach, Chain.blocks]
  | cons first others =>
    rw [compileEach, compile_shows first, compileEach_shows others]
    rfl

end

mutual

/-- The code of a tree puts the tree on the stack, whatever is there already. -/
theorem run_code : ∀ (chain : Chain) (stack : List Chain),
    run (Code.flattenAll chain.code) stack = some (chain :: stack)
  | .name _, _ | .string _, _ => rfl
  | .member object property, stack => by
    rw [Chain.code, Code.flattenAll_concat, Code.flattenAll_append, run_concat, run_append,
      run_code object, Option.bind_some, run_code property, Option.bind_some, step]
  | .call callee arguments, stack => by
    rw [Chain.code, Code.flattenAll_concat, Code.flattenAll_append, run_concat, run_append,
      run_code callee, Option.bind_some, run_blocks arguments, Option.bind_some, step_call]

/-- The trees of arguments come to lie on the stack with the last one on top. -/
theorem run_blocks : ∀ chains stack : List Chain,
    run (Code.flattenAll (Chain.blocks chains)) stack = some (chains.reverse ++ stack)
  | [], _ => rfl
  | first :: rest, stack => by
    rw [Chain.blocks, Code.flattenAll, Code.flatten, run_append, run_code first, Option.bind_some,
      run_blocks rest, reverse_cons, append_assoc, singleton_append]

end

/-- The code of a tree, run on the empty stack. -/
theorem compile_rebuilds {chain : Chain} (shown : v.Shows chain) :
    ∃ items, compile v = .ok (.block items) ∧ run (Code.block items).flatten [] = some [chain] := by
  exact ⟨chain.code, compile_shows shown, by rw [Code.flatten, run_code]⟩

/-- The code of a statement is that of its expression. -/
theorem compile_states {chain : Chain} (stated : v.States chain) :
    ∃ items, compile v = .ok (.block items) ∧ run (Code.block items).flatten [] = some [chain] := by
  obtain ⟨attributes, expression, is, held, shown⟩ := stated
  rw [compile_statement is, compileAt_eq held]
  exact compile_rebuilds shown

theorem compileEach_states {statements : List Value} {chains : List Chain}
    (stated : List.Forall₂ Value.States statements chains) :
    ∃ codes, compileEach statements = .ok codes ∧
      List.Forall₂ (fun code chain => run (Code.flatten code) [] = some [chain]) codes chains := by
  induction stated with
  | nil => exact ⟨[], by rw [compileEach], .nil⟩
  | cons first _ ih =>
    obtain ⟨items, compiled, rebuilt⟩ := compile_states first
    obtain ⟨codes, others, rest⟩ := ih
    refine ⟨.block items :: codes, ?_, .cons rebuilt rest⟩
    rw [compileEach, compiled, others]
    rfl

/-- Code is faithful: from an empty stack it rebuilds the tree it was compiled from, and nothing else stays on
the stack. The code of a program is that of its statements, one by one. -/
theorem compile_faithful :
    (∀ v chain, Value.Shows v chain →
      ∃ items, compile v = .ok (.block items) ∧ run (Code.block items).flatten [] = some [chain]) ∧
    ∀ v attributes statements chains, v.Is "Program" attributes →
      attributes.get? "body" = some (.list statements) → List.Forall₂ Value.States statements chains →
      ∃ codes, compile v = .ok (.block codes) ∧
        List.Forall₂ (fun code chain => run (Code.flatten code) [] = some [chain]) codes chains := by
  refine ⟨fun v chain shown => compile_rebuilds shown, fun v attributes statements chains is held stated => ?_⟩
  obtain ⟨codes, compiled, rebuilt⟩ := compileEach_states stated
  refine ⟨codes, ?_, rebuilt⟩
  rw [compile_program is, compileAll_eq held, compiled]
  rfl

/-- `a.b("s", c[d])` is an expression that has code, and so is a program that consists of it. -/
theorem compile_faithful_call :
    ∃ call chain, call = Node.callExpression
        (.memberExpression false (.identifier [0x61]) (.identifier [0x62]))
        [.literal (.string [0x73]) [0x22, 0x73, 0x22],
          .memberExpression true (.identifier [0x63]) (.identifier [0x64])] ∧
      chain = Chain.call (.member (.name [0x61]) (.name [0x62]))
        [.string [0x73], .member (.name [0x63]) (.name [0x64])] ∧
      (∃ items, compile call.toValue = .ok (.block items) ∧
        run (Code.block items).flatten [] = some [chain]) ∧
      ∃ codes, compile (Node.program [.expressionStatement call]).toValue = .ok (.block codes) ∧
        List.Forall₂ (fun code chain => run (Code.flatten code) [] = some [chain]) codes [chain] := by
  refine ⟨_, _, rfl, rfl, ?_⟩
  suffices shown : Value.Shows _ _ from ⟨compile_faithful.1 _ _ shown,
    compile_faithful.2 _ _ _ _ ⟨rfl, rfl⟩ rfl (.cons ⟨_, _, ⟨rfl, rfl⟩, rfl, shown⟩ .nil)⟩
  exact .call ⟨rfl, rfl⟩ rfl rfl
    (.member ⟨rfl, rfl⟩ rfl rfl (.identifier ⟨rfl, rfl⟩ rfl) (.identifier ⟨rfl, rfl⟩ rfl))
    (.cons (.literal ⟨rfl, rfl⟩ rfl rfl)
      (.cons (.member ⟨rfl, rfl⟩ rfl rfl (.identifier ⟨rfl, rfl⟩ rfl) (.identifier ⟨rfl, rfl⟩ rfl)) .nil))

/-- The code of a tree is flat if and only if no call in the tree has arguments: each argument is a block
inside of the code around it. -/
theorem compile_flat_iff {chain : Chain} (shown : v.Shows chain) :
    compile v = .ok (.block chain.code) ∧
      ((∀ item ∈ chain.code, item.isInstruction = true) ↔ chain.isBare = true) := by
  rw [← all_eq_true, chain.all_isInstruction]
  exact ⟨compile_shows shown, .rfl⟩

/-- The code of `f(x)` holds the code of `x` as a block. -/
theorem compile_flat_iff_argument :
    compile (Node.callExpression (.identifier [0x66]) [.identifier [0x78]]).toValue =
        .ok (.block [.instruction (.pushIdentifier [0x66]),
          .block [.instruction (.pushIdentifier [0x78])], .instruction (.call 1)]) ∧
      ¬(Code.block [.instruction (.pushIdentifier [0x78])]).isInstruction = true := by
  suffices shown : Value.Shows _ (.call (.name [0x66]) [.name [0x78]]) from
    ⟨(compile_flat_iff shown).1, nofun⟩
  exact .call ⟨rfl, rfl⟩ rfl rfl (.identifier ⟨rfl, rfl⟩ rfl) (.cons (.identifier ⟨rfl, rfl⟩ rfl) .nil)

/-- A member has the same code whether its property is computed or not: `o.x` and `o[x]` are not told
apart. -/
theorem compile_blind : ∃ v w : Value,
    v = (Node.memberExpression false (.identifier [0x6F]) (.identifier [0x78])).toValue ∧
      w = (Node.memberExpression true (.identifier [0x6F]) (.identifier [0x78])).toValue ∧
      v.Shows (.member (.name [0x6F]) (.name [0x78])) ∧ w.Shows (.member (.name [0x6F]) (.name [0x78])) ∧
      compile v = compile w := by
  refine ⟨_, _, rfl, rfl, ?_, ?_, rfl⟩ <;>
    exact .member ⟨rfl, rfl⟩ rfl rfl (.identifier ⟨rfl, rfl⟩ rfl) (.identifier ⟨rfl, rfl⟩ rfl)

/-- Besides that, and besides the spelling of strings, trees with the same code are the same. -/
theorem compile_eq_iff :
    (∀ v w chain other, Value.Shows v chain → Value.Shows w other →
      (compile v = compile w ↔ chain = other)) ∧
    ∀ (object member : Node) (computed computed' : Bool),
      compile (Node.memberExpression computed object member).toValue =
        compile (Node.memberExpression computed' object member).toValue := by
  refine ⟨fun v w chain other shown shown' => ⟨fun same => ?_, ?_⟩, fun _ _ _ _ => ?_⟩
  · -- The code rebuilds either tree.
    rw [compile_shows shown, compile_shows shown'] at same
    have rebuilt := run_code chain []
    rw [Code.block.inj (Except.ok.inj same), run_code other] at rebuilt
    exact (List.cons.inj (Option.some.inj rebuilt)).1.symm
  · rintro rfl
    rw [compile_shows shown, compile_shows shown']
  · rw [Node.toValue, Node.toValue, Node.element, Node.element, compile_member ⟨rfl, rfl⟩,
      compile_member ⟨rfl, rfl⟩]
    rfl

/-- `o.x` and `o["x"]` have different code. -/
theorem compile_eq_iff_quoted :
    compile (Node.memberExpression false (.identifier [0x6F]) (.identifier [0x78])).toValue ≠
      compile (Node.memberExpression true (.identifier [0x6F])
        (.literal (.string [0x78]) [0x22, 0x78, 0x22])).toValue := by
  intro same
  suffices equal : Chain.member (.name [0x6F]) (.name [0x78]) = .member (.name [0x6F]) (.string [0x78]) by
    cases equal
  refine (compile_eq_iff.1 _ _ _ _ ?_ ?_).mp same
  · exact .member ⟨rfl, rfl⟩ rfl rfl (.identifier ⟨rfl, rfl⟩ rfl) (.identifier ⟨rfl, rfl⟩ rfl)
  · exact .member ⟨rfl, rfl⟩ rfl rfl (.identifier ⟨rfl, rfl⟩ rfl) (.literal ⟨rfl, rfl⟩ rfl rfl)

end Bytecode

end EcmaScript
