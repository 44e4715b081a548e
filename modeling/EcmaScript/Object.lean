import EcmaScript.Fault
import EcmaScript.Value

/-!
Objects with properties. Objects live in a heap and refer to each other by their places; a property
that was deleted stays in its object without a value.
-/

namespace EcmaScript

inductive ObjectKind where
  | plain
  | string (text : Text)
  | undefined
  | boolean (value : Bool)
  | function (name : Text) (arity : Int) (environment : Nat)

/-- `storage` holds the properties in the order in which they were first set. The prototype is
whatever the object was made with. -/
structure Object where
  kind : ObjectKind
  prototype : Value := .null
  storage : List (Text × Option Nat) := []

namespace Object

/-- Gives a property a value, or none; a property that is there already keeps its place. -/
def put (key : Text) (value : Option Nat) (object : Object) : Object :=
  { object with storage := go object.storage }
where
  go : List (Text × Option Nat) → List (Text × Option Nat)
    | [] => [(key, value)]
    | (k, v) :: rest => if k = key then (k, value) :: rest else (k, v) :: go rest

def has (key : Text) (object : Object) : Bool :=
  object.storage.any fun entry => entry.1 = key

def keys (object : Object) : List Text :=
  object.storage.map Prod.fst

end Object

/-- The result of an operation on an object; `table` is an object whose properties are strings. -/
inductive ObjectResult where
  | undefined
  | boolean (value : Bool)
  | table (entries : List (Text × Text))

/-- The operations that objects should have and that are not there yet. -/
inductive ReservedOperation where
  | apply | construct | defineProperty | getOwnPropertyDescriptor | getPrototypeOf | isExtensible
  | preventExtensions | setPrototypeOf
  deriving DecidableEq, Repr

namespace ReservedOperation

def all : List ReservedOperation :=
  [apply, construct, defineProperty, getOwnPropertyDescriptor, getPrototypeOf, isExtensible,
   preventExtensions, setPrototypeOf]

def name : ReservedOperation → String
  | apply => "apply"
  | construct => "construct"
  | defineProperty => "defineProperty"
  | getOwnPropertyDescriptor => "getOwnPropertyDescriptor"
  | getPrototypeOf => "getPrototypeOf"
  | isExtensible => "isExtensible"
  | preventExtensions => "preventExtensions"
  | setPrototypeOf => "setPrototypeOf"

def arity : ReservedOperation → Nat
  | apply | defineProperty => 2
  | construct | getOwnPropertyDescriptor | setPrototypeOf => 1
  | getPrototypeOf | isExtensible | preventExtensions => 0

def explanation : ReservedOperation → String
  | defineProperty => "Not implemented"
  | _ => "Not Implemented"

def ofName? (name : String) : Option ReservedOperation :=
  all.find? fun operation => operation.name = name

end ReservedOperation

/-- An operation on one object. Keys and values are references to objects, or anything else that was
given in their place. -/
inductive ObjectOperation where
  | get (key : Value)
  | set (key value : Value)
  | delete (key : Value)
  | has (key : Value)
  | ownKeys
  | reserved (operation : ReservedOperation)

structure Heap where
  objects : List Object := []

namespace Heap

/-- The object at a place that a value refers to. -/
def object? (heap : Heap) : Value → Option Object
  | .ref place => heap.objects[place]?
  | _ => none

/-- Only an object of strings is a key. -/
def key (heap : Heap) (value : Value) : Except Fault Text :=
  match heap.object? value with
  | some { kind := .string text, .. } => .ok text
  | _ => .error (.precondition [])

/-- Only an object is the value of a property. -/
def place (heap : Heap) (value : Value) : Except Fault Nat :=
  match value, heap.object? value with
  | .ref place, some _ => .ok place
  | _, _ => .error (.precondition [])

/-- The entries of a table with numbers for keys. -/
def numbered (texts : List Text) : List (Text × Text) :=
  texts.zipIdx.map fun entry => (Text.ofNat entry.2, entry.1)

/-- Reads a property. One that was never set is missing, and one that was deleted is looked for in
the prototype, which cannot be asked. -/
def get (object : Object) (key : Text) : Except Fault ObjectResult :=
  match object.storage.lookup key with
  | none => .error .missingKey
  | some value =>
    match value, object.prototype with
    | some _, _ | none, .null => .ok .undefined
    | none, _ => .error .missingAttribute

/-- Performs an operation on the object at a place. -/
def perform (heap : Heap) (at_ : Nat) (operation : ObjectOperation) :
    Except Fault (Heap × ObjectResult) :=
  match heap.objects[at_]? with
  | none => .error .pastEnd
  | some object =>
    match operation with
    | .get key => do
      let result ← get object (← heap.key key)
      pure (heap, result)
    | .set key value => do
      let name ← heap.key key
      let value ← heap.place value
      pure ({ objects := heap.objects.set at_ (object.put name (some value)) }, .undefined)
    | .delete key => do
      let name ← heap.key key
      pure ({ objects := heap.objects.set at_ (object.put name none) }, .undefined)
    | .has key => do
      let name ← heap.key key
      pure (heap, .boolean (object.has name))
    | .ownKeys => pure (heap, .table (numbered object.keys))
    | .reserved operation => .error (.refused (Text.ofString operation.explanation))

/-- Adds an object and tells its place. -/
def add (heap : Heap) (object : Object) : Heap × Nat :=
  ({ objects := heap.objects ++ [object] }, heap.objects.length)

/-- An object of strings. -/
def stringObject : Value → Except Fault Object
  | .text text => .ok { kind := .string text }
  | _ => .error (.precondition [])

/-- An object of truth values. -/
def booleanObject : Value → Except Fault Object
  | .bool value => .ok { kind := .boolean value }
  | _ => .error (.precondition [])

/-- A function: its name, the number of its arguments, its environment and its code. -/
def functionObject (heap : Heap) (name arity environment code : Value) : Except Fault Object := do
  let name ← match name with
    | .text name => pure name
    | _ => throw (.precondition [])
  let arity ← match arity with
    | .int n => pure n
    | .bool b => pure (if b then 1 else 0)
    | _ => throw (.precondition [])
  let environment ← heap.place environment
  match code with
  | .list _ => pure { kind := .function name arity environment }
  | _ => throw (.precondition [])

end Heap

end EcmaScript
