import EcmaScript.Bytecode

/-!
The machine that runs bytecode. It starts every instruction with an empty stack.
-/

namespace EcmaScript

/-- What the machine can be given: an instruction, one without any meaning, or just a word. -/
inductive Operation where
  | instruction (i : Instruction)
  | meaningless
  | word (t : Text)

namespace Machine

/-- An instruction that pushes a name. -/
def pushIdentifier (name : Value) : Except Fault Instruction :=
  Instruction.pushIdentifier <$> Bytecode.textOperand name

/-- An instruction that pushes a string. -/
def pushString (string : Value) : Except Fault Instruction :=
  Instruction.pushString <$> Bytecode.textOperand string

/-- An instruction that calls with a number of arguments. -/
def call : Value → Except Fault Instruction
  | .int count => .ok (.call count)
  | .bool b => .ok (.call (if b then 1 else 0))
  | _ => .error (.precondition [])

/-- Runs one operation on a stack of texts. A call takes nothing from the stack yet. -/
def step (stack : List Text) : Operation → Except Fault (List Text)
  | .instruction (.pushIdentifier name) => .ok (name :: stack)
  | .instruction (.pushString string) => .ok (string :: stack)
  | .instruction .getProperty =>
    match stack with
    | _ :: _ :: _ => .error .missingAttribute
    | _ => .error .emptyStack
  | .instruction (.call _) => .ok stack
  | .meaningless => .error .wrongType
  | .word t => .error (.refused (Text.ofString "Unknown bytecode: " ++ t))

/-- Runs one operation by itself. -/
def run (operation : Operation) : Except Fault Unit := do
  let _ ← step [] operation
  pure ()

/-- The name of the executable, with a place for the name of the backend. -/
def executableName : String :=
  "js-%(backend)s"

end Machine

end EcmaScript
