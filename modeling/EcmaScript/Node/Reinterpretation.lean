import EcmaScript.Fault
import EcmaScript.Value

/-!
Expressions as assignment targets, for syntax trees given as attribute trees. The tree is changed
from the outside in, and a fault leaves the changes made before it.
-/

namespace EcmaScript.Reinterpretation

/-- The types that are targets as they stand. -/
def isTargetType (type : Text) : Bool :=
  ["Identifier", "MemberExpression", "RestElement", "AssignmentPattern"].any
    fun name => type = Text.ofString name

/-- Expressions of all other types are no targets. -/
def noTarget : Fault :=
  .unsupported (Text.ofString "AssignmentPattern")

mutual

/-- Turns an expression into a target. -/
def pattern : Value → Value × Option Fault
  | .node attributes =>
    match Attributes.get? "type" attributes with
    | some (.text type) =>
      if isTargetType type then (.node attributes, none)
      else if type = Text.ofString "SpreadElement" then
        let (attributes, fault) := partAt "argument" .missingAttribute attributes
        (.node (attributes.set "type" (.ofString "RestElement")), fault)
      else if type = Text.ofString "ArrayExpression" then
        let (attributes, fault) := elementsAt .missingAttribute attributes
        (.node (attributes.set "type" (.ofString "ArrayPattern")), fault)
      else if type = Text.ofString "ObjectExpression" then
        let (attributes, fault) := propertiesAt .missingAttribute attributes
        (.node (attributes.set "type" (.ofString "ObjectPattern")), fault)
      else (.node attributes, some noTarget)
    | some _ => (.node attributes, some noTarget)
    | none => (.node attributes, some .missingAttribute)
  | .record attributes =>
    match Attributes.get? "type" attributes with
    | some (.text type) =>
      if isTargetType type then (.record attributes, none)
      else if type = Text.ofString "SpreadElement" then
        (.record (Attributes.set "type" (.ofString "RestElement") attributes),
          some .missingAttribute)
      else if type = Text.ofString "ArrayExpression" then
        let (attributes, fault) := elementsAt .missingKey attributes
        (.record (attributes.set "type" (.ofString "ArrayPattern")), fault)
      else if type = Text.ofString "ObjectExpression" then
        let (attributes, fault) := propertiesAt .missingKey attributes
        (.record (attributes.set "type" (.ofString "ObjectPattern")), fault)
      else (.record attributes, some noTarget)
    | some _ => (.record attributes, some noTarget)
    | none => (.record attributes, some .missingKey)
  | value => (value, some .wrongType)

/-- Turns the part under a key into a target. -/
def partAt (key : String) (missing : Fault) : List (String × Value) → Attributes × Option Fault
  | [] => ([], some missing)
  | (k, v) :: rest =>
    if k = key then
      let (v, fault) := pattern v
      ((k, v) :: rest, fault)
    else
      let (rest, fault) := partAt key missing rest
      ((k, v) :: rest, fault)

/-- Turns the elements of an array into targets. -/
def elementsAt (missing : Fault) : List (String × Value) → Attributes × Option Fault
  | [] => ([], some missing)
  | (k, .list items) :: rest =>
    if k = "elements" then
      let (items, fault) := elements items
      ((k, .list items) :: rest, fault)
    else
      let (rest, fault) := elementsAt missing rest
      ((k, .list items) :: rest, fault)
  | (k, v) :: rest =>
    if k = "elements" then ((k, v) :: rest, noItems v)
    else
      let (rest, fault) := elementsAt missing rest
      ((k, v) :: rest, fault)

/-- Turns the values of properties into targets. -/
def propertiesAt (missing : Fault) : List (String × Value) → Attributes × Option Fault
  | [] => ([], some missing)
  | (k, .list items) :: rest =>
    if k = "properties" then
      let (items, fault) := properties items
      ((k, .list items) :: rest, fault)
    else
      let (rest, fault) := propertiesAt missing rest
      ((k, .list items) :: rest, fault)
  | (k, v) :: rest =>
    if k = "properties" then ((k, v) :: rest, noItems v)
    else
      let (rest, fault) := propertiesAt missing rest
      ((k, v) :: rest, fault)

/-- Turns each element into a target; holes stay. -/
def elements : List Value → List Value × Option Fault
  | [] => ([], none)
  | .null :: rest =>
    let (rest, fault) := elements rest
    (.null :: rest, fault)
  | v :: rest =>
    match pattern v with
    | (v, some fault) => (v :: rest, some fault)
    | (v, none) =>
      let (rest, fault) := elements rest
      (v :: rest, fault)

/-- Turns the value of each property into a target. -/
def properties : List Value → List Value × Option Fault
  | [] => ([], none)
  | .node attributes :: rest =>
    match partAt "value" .missingAttribute attributes with
    | (attributes, some fault) => (.node attributes :: rest, some fault)
    | (attributes, none) =>
      let (rest, fault) := properties rest
      (.node attributes :: rest, fault)
  | .record attributes :: rest =>
    match partAt "value" .missingKey attributes with
    | (attributes, some fault) => (.record attributes :: rest, some fault)
    | (attributes, none) =>
      let (rest, fault) := properties rest
      (.record attributes :: rest, fault)
  | v :: rest => (v :: rest, some .wrongType)

/-- What is wrong with something that is no list of items. Something empty holds none. -/
def noItems : Value → Option Fault
  | .text t => if t.isEmpty then none else some .wrongType
  | .record attributes => if attributes.isEmpty then none else some .missingKey
  | _ => some .wrongType

end

end EcmaScript.Reinterpretation
