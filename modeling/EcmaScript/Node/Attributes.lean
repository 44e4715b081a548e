import EcmaScript.Node

/-!
Syntax trees as attribute trees: the type of a node and its parts under their usual names.
-/

namespace EcmaScript

def DeclarationKind.spelling : DeclarationKind → String
  | .var => "var"
  | .let_ => "let"
  | .const => "const"

def PropertyKind.spelling : PropertyKind → String
  | .init => "init"
  | .get => "get"
  | .set => "set"

def Literal.toValue : Literal → Value
  | .null => .null
  | .boolean value => .bool value
  | .number value => .ofNumber value
  | .string value => .text value
  | .regExp pattern flags => .list [.text pattern, .text flags]

/-- The extra attribute of a regular expression. -/
def Literal.extra : Literal → Attributes
  | .regExp pattern flags =>
    [("regex", .record [("pattern", .text pattern), ("flags", .text flags)])]
  | _ => []

namespace Node

/-- A node with the given type and parts. -/
def element (type : String) (parts : Attributes) : Value :=
  .node (("type", .ofString type) :: parts)

mutual

def toValue : Node → Value
  | program body => element "Program" [("body", .list (listValues body))]
  | emptyStatement => element "EmptyStatement" []
  | debuggerStatement => element "DebuggerStatement" []
  | thisExpression => element "ThisExpression" []
  | blockStatement body => element "BlockStatement" [("body", .list (listValues body))]
  | expressionStatement expression =>
    element "ExpressionStatement"
      [("expression", toValue expression)]
  | ifStatement test consequent alternate =>
    element "IfStatement"
      [("test", toValue test), ("consequent", toValue consequent),
       ("alternate", optionValue alternate)]
  | doWhileStatement body test =>
    element "DoWhileStatement"
      [("body", toValue body), ("test", toValue test)]
  | whileStatement test body =>
    element "WhileStatement"
      [("test", toValue test), ("body", toValue body)]
  | forStatement init test update body =>
    element "ForStatement"
      [("init", optionValue init), ("test", optionValue test), ("update", optionValue update),
       ("body", toValue body)]
  | forInStatement left right body =>
    element "ForInStatement"
      [("left", toValue left), ("right", toValue right), ("body", toValue body),
       ("each", .bool false)]
  | continueStatement label => element "ContinueStatement" [("label", optionValue label)]
  | breakStatement label => element "BreakStatement" [("label", optionValue label)]
  | returnStatement argument => element "ReturnStatement" [("argument", optionValue argument)]
  | withStatement object body =>
    element "WithStatement"
      [("object", toValue object), ("body", toValue body)]
  | switchStatement discriminant cases =>
    element "SwitchStatement"
      [("discriminant", toValue discriminant), ("cases", .list (listValues cases))]
  | switchCase test consequent =>
    element "SwitchCase"
      [("test", optionValue test), ("consequent", .list (listValues consequent))]
  | labeledStatement label body =>
    element "LabeledStatement"
      [("label", toValue label), ("body", toValue body)]
  | throwStatement argument => element "ThrowStatement" [("argument", toValue argument)]
  | tryStatement block handler finalizer =>
    element "TryStatement"
      [("block", toValue block), ("guardedHandlers", .list []),
       ("handlers", .list (handlerValues handler)), ("handler", optionValue handler),
       ("finalizer", optionValue finalizer)]
  | catchClause param body =>
    element "CatchClause"
      [("param", toValue param), ("body", toValue body)]
  | variableDeclaration kind declarations =>
    element "VariableDeclaration"
      [("declarations", .list (listValues declarations)), ("kind", .ofString kind.spelling)]
  | variableDeclarator id init =>
    element "VariableDeclarator"
      [("id", toValue id), ("init", optionValue init)]
  | functionDeclaration id params defaults body =>
    element "FunctionDeclaration"
      [("id", optionValue id), ("params", .list (listValues params)),
       ("defaults", .list (holesValues defaults)), ("body", toValue body),
       ("generator", .bool false), ("expression", .bool false)]
  | functionExpression id params defaults body =>
    element "FunctionExpression"
      [("id", optionValue id), ("params", .list (listValues params)),
       ("defaults", .list (holesValues defaults)), ("body", toValue body),
       ("generator", .bool false), ("expression", .bool false)]
  | pyimportStatement module => element "PyimportStatement" [("imp", toValue module)]
  | identifier name => element "Identifier" [("name", .text name)]
  | literal value raw =>
    element "Literal"
      ([("value", value.toValue), ("raw", .text raw)] ++ value.extra)
  | arrayExpression elements =>
    element "ArrayExpression"
      [("elements", .list (holesValues elements))]
  | arrayPattern elements => element "ArrayPattern" [("elements", .list (holesValues elements))]
  | objectExpression properties =>
    element "ObjectExpression"
      [("properties", .list (listValues properties))]
  | objectPattern properties =>
    element "ObjectPattern"
      [("properties", .list (listValues properties))]
  | property kind key computed value method shorthand =>
    element "Property"
      [("key", toValue key), ("computed", .bool computed), ("value", toValue value),
       ("kind", .ofString kind.spelling), ("method", .bool method), ("shorthand", .bool shorthand)]
  | unaryExpression operator argument =>
    element "UnaryExpression"
      [("operator", .ofString operator.spelling), ("argument", toValue argument),
       ("prefix", .bool true)]
  | updateExpression operator prefixed argument =>
    element "UpdateExpression"
      [("operator", .ofString operator.spelling), ("argument", toValue argument),
       ("prefix", .bool prefixed)]
  | binaryExpression operator left right =>
    element (if operator.isLogical then "LogicalExpression" else "BinaryExpression")
      [("operator", .ofString operator.spelling), ("left", toValue left), ("right", toValue right)]
  | assignmentExpression operator left right =>
    element "AssignmentExpression"
      [("operator", .ofString operator.spelling), ("left", toValue left), ("right", toValue right)]
  | conditionalExpression test consequent alternate =>
    element "ConditionalExpression"
      [("test", toValue test), ("consequent", toValue consequent), ("alternate", toValue alternate)]
  | sequenceExpression expressions =>
    element "SequenceExpression"
      [("expressions", .list (listValues expressions))]
  | memberExpression computed object member =>
    element "MemberExpression"
      [("computed", .bool computed), ("object", toValue object), ("property", toValue member)]
  | callExpression callee arguments =>
    element "CallExpression"
      [("callee", toValue callee), ("arguments", .list (listValues arguments))]
  | newExpression callee arguments =>
    element "NewExpression"
      [("callee", toValue callee), ("arguments", .list (listValues arguments))]
  | assignmentPattern left right =>
    element "AssignmentPattern"
      [("left", toValue left), ("right", toValue right)]
  | spreadElement argument => element "SpreadElement" [("argument", toValue argument)]
  | restElement argument => element "RestElement" [("argument", toValue argument)]

def listValues : List Node → List Value
  | [] => []
  | node :: rest => toValue node :: listValues rest

def optionValue : Option Node → Value
  | some node => toValue node
  | none => .null

def handlerValues : Option Node → List Value
  | some node => [toValue node]
  | none => []

def holesValues : List (Option Node) → List Value
  | [] => []
  | node :: rest => optionValue node :: holesValues rest

end

/-- All attributes of a node, its type first. -/
def attributes (node : Node) : Attributes :=
  match node.toValue with
  | .node attributes => attributes
  | _ => []

end Node

end EcmaScript
