import EcmaScript.Number

/-!
Attribute trees: the form in which syntax trees leave the library, and which tools that take trees
as plain data work on. A record and a node both hold named attributes; a node is an element of a
syntax tree, a record is anything else with names. `ref` points to a node kept elsewhere.
-/

namespace EcmaScript

inductive Value where
  | null
  | bool (b : Bool)
  | int (n : Int)
  | double (bits : UInt64)
  | text (t : Text)
  | list (items : List Value)
  | record (attributes : List (String × Value))
  | node (attributes : List (String × Value))
  | ref (place : Nat)
  deriving Inhabited

abbrev Attributes := List (String × Value)

namespace Attributes

def get? (key : String) (attributes : Attributes) : Option Value :=
  attributes.lookup key

/-- Gives an attribute a value; an attribute that is there already keeps its place. -/
def set (key : String) (value : Value) : Attributes → Attributes
  | [] => [(key, value)]
  | (k, v) :: rest => if k = key then (k, value) :: rest else (k, v) :: set key value rest

def setAll (attributes changes : Attributes) : Attributes :=
  changes.foldl (fun result change => result.set change.1 change.2) attributes

end Attributes

namespace Value

def ofString (s : String) : Value :=
  text (Text.ofString s)

def ofNat (n : Nat) : Value :=
  int n

def ofNumber : Number → Value
  | .integer n => int n
  | .double bits => double bits

def ofOption (f : α → Value) : Option α → Value
  | some a => f a
  | none => null

/-- Nothing, false, zero and whatever is empty count as absent; a node never does. -/
def isPresent : Value → Bool
  | null => false
  | bool b => b
  | int n => n ≠ 0
  | double bits => bits ≠ 0 && bits ≠ 0x8000000000000000
  | text t => !t.isEmpty
  | list items => !items.isEmpty
  | record attributes => !attributes.isEmpty
  | node _ | ref _ => true

/-- Whether the value is this text. -/
def isText (s : String) : Value → Bool
  | text t => t = Text.ofString s
  | _ => false

def attributes? : Value → Option Attributes
  | record attributes | node attributes => some attributes
  | _ => none

/-- The text that stands for a simple value inside a message. -/
def shown : Value → Text
  | null => Text.ofString "None"
  | bool true => Text.ofString "True"
  | bool false => Text.ofString "False"
  | int n => Text.ofInt n
  | text t => t
  | _ => []

/-- The same tree with every node turned into a record. -/
def plain : Value → Value
  | list items => list (plainItems items)
  | record attributes | node attributes => record (plainAttributes attributes)
  | value => value
where
  plainItems : List Value → List Value
    | [] => []
    | v :: rest => plain v :: plainItems rest
  plainAttributes : List (String × Value) → List (String × Value)
    | [] => []
    | (k, v) :: rest => (k, plain v) :: plainAttributes rest

end Value

end EcmaScript
