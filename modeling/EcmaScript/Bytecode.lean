import EcmaScript.Fault
import EcmaScript.Node.Attributes

/-!
Bytecode for calls, members, names and strings. Code is compiled from syntax trees given as
attribute trees, so a tree may lack parts or hold anything in their place.
-/

namespace EcmaScript

inductive Instruction where
  | pushIdentifier (name : Text)
  | pushString (string : Text)
  | getProperty
  | call (count : Int)
  deriving DecidableEq, Repr

/-- Code is nested: the arguments of a call are blocks of their own, and some literals have none. -/
inductive Code where
  | nothing
  | instruction (i : Instruction)
  | block (items : List Code)

namespace Bytecode

/-- What is said where a tree lacks a part. -/
def missing : Value → Fault
  | .node _ => .missingAttribute
  | _ => .missingKey

/-- Text is the only thing that can be pushed. -/
def textOperand : Value → Except Fault Text
  | .text t => .ok t
  | _ => .error (.precondition [])

/-- The items of a block; there is nothing to join if an operand has no code. -/
def itemsOf : Code → Except Fault (List Code)
  | .block items => .ok items
  | _ => .error .wrongType

/-- Whether a spelling starts with a double quote. -/
def isDoubleQuoted : Value → Except Fault Bool
  | .text (c :: _) => .ok (c = 0x22)
  | .list (first :: _) => .ok (first.isText "\"")
  | .text [] | .list [] => .error .pastEnd
  | .record _ => .error .missingKey
  | _ => .error .wrongType

/-- A name is pushed. -/
def identifier (fault : Fault) (attributes : Attributes) : Except Fault Code := do
  match attributes.get? "name" with
  | some name => return .block [.instruction (.pushIdentifier (← textOperand name))]
  | none => .error fault

/-- A literal in double quotes is pushed; others have no code. -/
def literal (fault : Fault) (attributes : Attributes) : Except Fault Code := do
  match attributes.get? "raw" with
  | none => .error fault
  | some raw => do
    if ← isDoubleQuoted raw then
      match attributes.get? "value" with
      | some value => return .block [.instruction (.pushString (← textOperand value))]
      | none => .error fault
    else pure .nothing

/-- A node of another type has no code. -/
def unknown (type : Value) : Except Fault Code :=
  match type with
  | .text t => .error (.refused (Text.ofString "Unknown node: " ++ t))
  | _ => .error .wrongType

mutual

/-- The code of a syntax tree: operands first, then the instruction that takes them. -/
def compile : Value → Except Fault Code
  | tree@(.record attributes) | tree@(.node attributes) =>
    match Attributes.get? "type" attributes with
    | none => .error (missing tree)
    | some type =>
      if type.isText "Program" then do
        let items ← compileAll (missing tree) "body" attributes
        pure (.block items)
      else if type.isText "ExpressionStatement" then compileAt (missing tree) "expression" attributes
      else if type.isText "CallExpression" then do
        let callee ← compileAt (missing tree) "callee" attributes
        let args ← compileAll (missing tree) "arguments" attributes
        let target ← itemsOf callee
        pure (.block (target ++ args ++ [.instruction (.call args.length)]))
      else if type.isText "MemberExpression" then do
        let object ← compileAt (missing tree) "object" attributes
        let property ← compileAt (missing tree) "property" attributes
        let owner ← itemsOf object
        let key ← itemsOf property
        pure (.block (owner ++ key ++ [.instruction .getProperty]))
      else if type.isText "Identifier" then identifier (missing tree) attributes
      else if type.isText "Literal" then literal (missing tree) attributes
      else unknown type
  | _ => .error .wrongType

/-- The code of the part under a key. -/
def compileAt (fault : Fault) (key : String) : List (String × Value) → Except Fault Code
  | [] => .error fault
  | (k, v) :: rest => if k = key then compile v else compileAt fault key rest

/-- The code of each item of the list under a key. -/
def compileAll (fault : Fault) (key : String) : List (String × Value) → Except Fault (List Code)
  | [] => .error fault
  | (k, .list items) :: rest => if k = key then compileEach items else compileAll fault key rest
  | (k, v) :: rest => if k = key then noItems v else compileAll fault key rest

def compileEach : List Value → Except Fault (List Code)
  | [] => .ok []
  | v :: rest => do
    let first ← compile v
    let others ← compileEach rest
    pure (first :: others)

/-- Something empty holds no items; anything else but a list cannot be compiled. -/
def noItems : Value → Except Fault (List Code)
  | .text [] | .record [] => .ok []
  | _ => .error .wrongType

end

/-- The exit code of a run that compiles a tree and shows its code. -/
def exitCode (tree : Value) : Except Fault Nat := do
  let _ ← compile tree
  pure 0

end Bytecode

/-- The program without the empty statements of its top level. -/
def Node.withoutEmptyStatements : Node → Node
  | .program body =>
    .program (body.filter fun statement =>
      match statement with
      | .emptyStatement => false
      | _ => true)
  | node => node

end EcmaScript
