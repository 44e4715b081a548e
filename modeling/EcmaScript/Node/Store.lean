import EcmaScript.Node.Form

/-!
A store of nodes under construction. Nodes refer to each other by their place in the store, so a
change to one shows wherever it is a part.
-/

namespace EcmaScript

/-- The attributes of each node, in the order in which the nodes were made. -/
structure NodeStore where
  nodes : List Attributes := []

namespace NodeStore

/-- A new node without attributes, and its place. -/
def new (store : NodeStore) : NodeStore × Nat :=
  ({ nodes := store.nodes ++ [[]] }, store.nodes.length)

def attributes (store : NodeStore) (place : Nat) : Attributes :=
  (store.nodes[place]?).getD []

def change (store : NodeStore) (place : Nat) (f : Attributes → Attributes) : NodeStore :=
  { nodes := store.nodes.modify place f }

def set (store : NodeStore) (place : Nat) (key : String) (value : Value) : NodeStore :=
  store.change place fun attributes => attributes.set key value

/-- What asking a node for an attribute that it lacks amounts to: completing it by a form that does
not exist, or just a missing attribute. -/
def lacking (key : String) : Fault :=
  match (Text.ofString "finish").isPrefixOf (Text.ofString key) with
  | true => .unsupported ((Text.ofString key).drop 6)
  | false => .missingAttribute

def get (store : NodeStore) (place : Nat) (key : String) : Except Fault Value :=
  match (store.attributes place).get? key with
  | some value => .ok value
  | none => .error (lacking key)

/-- A value with the node it refers to put in its place, one level deep. -/
def deref (store : NodeStore) : Value → Value
  | .ref place => .node (store.attributes place)
  | value => value

/-- Completes a node; the store keeps what was set before a fault. -/
def complete (store : NodeStore) (place : Nat) (form : String) (values : List Value) :
    NodeStore × Option Fault :=
  let values := if form = "Literal" then values.map store.deref else values
  let (changes, fault) := Form.complete form values
  (store.change place fun attributes => attributes.setAll changes, fault)

mutual

/-- A value with all references replaced by the nodes themselves, to a given depth. -/
def resolve (store : NodeStore) : Nat → Value → Value
  | depth, .list items => .list (resolveItems store depth items)
  | depth, .record attributes => .record (resolveAttributes store depth attributes)
  | depth, .node attributes => .node (resolveAttributes store depth attributes)
  | depth + 1, .ref place => .node (resolveAttributes store depth (store.attributes place))
  | _, value => value
termination_by depth value => (depth, sizeOf value)

def resolveItems (store : NodeStore) : Nat → List Value → List Value
  | _, [] => []
  | depth, v :: rest => resolve store depth v :: resolveItems store depth rest
termination_by depth items => (depth, sizeOf items)

def resolveAttributes (store : NodeStore) : Nat → List (String × Value) → List (String × Value)
  | _, [] => []
  | depth, (k, v) :: rest => (k, resolve store depth v) :: resolveAttributes store depth rest
termination_by depth attributes => (depth, sizeOf attributes)

end

/-- A value with all references resolved; no chain of references is longer than the store. -/
def resolved (store : NodeStore) (value : Value) : Value :=
  store.resolve (store.nodes.length + 1) value

end NodeStore

end EcmaScript
