import EcmaScript.Fault
import EcmaScript.Value

/-!
Forms of nodes: which attributes a node of each form has and where their values come from. A node is
completed by giving it the attributes of a form; attributes that it had from before stay unless the
form sets them.
-/

namespace EcmaScript

/-- The parts of a form are given in order; `fixed` are the attributes that are always the same. -/
structure Form where
  name : String
  type : String
  parts : List String
  fixed : Attributes := []

namespace Form

/-- The attributes that every function has. -/
def functionFixed : Attributes :=
  [("generator", .bool false), ("expression", .bool false)]

def functionParts : List String :=
  ["id", "params", "defaults", "body"]

/-- A form that is named like its type. -/
def plain (type : String) (parts : List String) (fixed : Attributes) : Form :=
  { name := type, type, parts, fixed }

/-- The forms whose attributes are just their parts. -/
def table : List Form :=
  [plain "ArrayExpression" ["elements"] [],
   plain "ArrayPattern" ["elements"] [],
   plain "AssignmentExpression" ["operator", "left", "right"] [],
   plain "AssignmentPattern" ["left", "right"] [],
   plain "BinaryExpression" ["operator", "left", "right"] [],
   plain "BlockStatement" ["body"] [],
   plain "BreakStatement" ["label"] [],
   plain "CallExpression" ["callee", "arguments"] [],
   plain "CatchClause" ["param", "body"] [],
   plain "ConditionalExpression" ["test", "consequent", "alternate"] [],
   plain "ContinueStatement" ["label"] [],
   plain "DebuggerStatement" [] [],
   plain "DoWhileStatement" ["body", "test"] [],
   plain "EmptyStatement" [] [],
   plain "ExpressionStatement" ["expression"] [],
   plain "ForStatement" ["init", "test", "update", "body"] [],
   plain "ForInStatement" ["left", "right", "body"] [("each", .bool false)],
   plain "FunctionDeclaration" functionParts functionFixed,
   plain "FunctionExpression" functionParts functionFixed,
   plain "Identifier" ["name"] [],
   plain "IfStatement" ["test", "consequent", "alternate"] [],
   plain "LabeledStatement" ["label", "body"] [],
   plain "MemberExpression" ["computed", "object", "property"] [],
   plain "NewExpression" ["callee", "arguments"] [],
   plain "ObjectExpression" ["properties"] [],
   plain "ObjectPattern" ["properties"] [],
   { name := "PostfixExpression", type := "UpdateExpression", parts := ["operator", "argument"],
     fixed := [("prefix", .bool false)] },
   plain "Program" ["body"] [],
   { name := "Pyimport", type := "PyimportStatement", parts := ["imp"] },
   plain "Property" ["kind", "key", "computed", "value", "method", "shorthand"] [],
   plain "ReturnStatement" ["argument"] [],
   plain "SequenceExpression" ["expressions"] [],
   plain "SwitchCase" ["test", "consequent"] [],
   plain "SwitchStatement" ["discriminant", "cases"] [],
   plain "ThisExpression" [] [],
   plain "ThrowStatement" ["argument"] [],
   plain "TryStatement" ["block", "handler", "finalizer"] [("guardedHandlers", .list [])],
   plain "UnaryExpression" ["operator", "argument"] [("prefix", .bool true)],
   { name := "VariableDeclaration", type := "VariableDeclaration", parts := ["declarations"],
     fixed := [("kind", .ofString "var")] },
   { name := "LexicalDeclaration", type := "VariableDeclaration",
     parts := ["declarations", "kind"] },
   plain "VariableDeclarator" ["id", "init"] [],
   plain "WhileStatement" ["test", "body"] [],
   plain "WithStatement" ["object", "body"] []]

def ofName? (name : String) : Option Form :=
  table.find? fun form => form.name = name

/-- The attributes of a form with the given parts. -/
def attributes (form : Form) (values : List Value) : Attributes :=
  ("type", .ofString form.type) :: form.parts.zip values ++ form.fixed

/-- Whether an attribute is one of the given texts. -/
def isOneOf (attributes : Attributes) (key : String) (texts : List String) : Bool :=
  texts.any fun text => (attributes.get? key).any (·.isText text)

/-- What depends on the parts: the type of an operation, whether a member is computed, and the list
of handlers. -/
def settle (name : String) (attributes : Attributes) : Attributes :=
  if name = "BinaryExpression" && isOneOf attributes "operator" ["||", "&&"] then
    attributes.set "type" (.ofString "LogicalExpression")
  else if name = "UnaryExpression" && isOneOf attributes "operator" ["++", "--"] then
    attributes.set "type" (.ofString "UpdateExpression")
  else if name = "MemberExpression" then
    attributes.set "computed" (.bool (isOneOf attributes "computed" ["["]))
  else if name = "TryStatement" then
    let handler := (attributes.get? "handler").getD .null
    attributes.set "handlers" (.list (if handler.isPresent then [handler] else []))
  else attributes

/-- The attributes of a literal made from a token, as far as the token has them. The extra attribute
of a regular expression is taken over if it is there. -/
def literal (token : Value) : Attributes × Option Fault :=
  let type : Attributes := [("type", .ofString "Literal")]
  match token with
  | .record attributes =>
    match Attributes.get? "value" attributes with
    | none => (type, some .missingKey)
    | some value =>
      match Attributes.get? "raw" attributes with
      | none => (type ++ [("value", value)], some .missingKey)
      | some raw =>
        let regExp := match Attributes.get? "regex" attributes with
          | some r => if r.isPresent then [("regex", r)] else []
          | none => []
        (type ++ [("value", value), ("raw", raw)] ++ regExp, none)
  | .node attributes =>
    let taken := type ++ (attributes.filter fun entry => entry.1 = "value")
    if (Attributes.get? "value" attributes).isSome then
      (taken ++ (attributes.filter fun entry => entry.1 = "raw"), some .missingAttribute)
    else (type, some .missingAttribute)
  | _ => (type, some .wrongType)

/-- The attributes that completing a node sets, and the fault that cut them short. A form that does
not exist belongs to another edition; the number of parts has to be right. -/
def complete (name : String) (values : List Value) : Attributes × Option Fault :=
  if name = "Literal" then
    match values with
    | [token] => literal token
    | _ => ([], some .wrongType)
  else
    match ofName? name with
    | none => ([], some (.unsupported (Text.ofString name)))
    | some form =>
      if form.parts.length = values.length then (settle name (form.attributes values), none)
      else ([], some .wrongType)

end Form

end EcmaScript
