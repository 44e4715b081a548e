/-!
Names of node types: all that a syntax tree of a later edition can hold, and those that this edition
has.
-/

namespace EcmaScript.TypeName

/-- The node types of this edition. -/
def supported : List String :=
  ["AssignmentExpression", "ArrayExpression", "BlockStatement", "BinaryExpression",
   "BreakStatement", "CallExpression", "CatchClause", "ConditionalExpression", "ContinueStatement",
   "DoWhileStatement", "DebuggerStatement", "EmptyStatement", "ExpressionStatement",
   "ForStatement", "ForInStatement", "FunctionDeclaration", "FunctionExpression", "Identifier",
   "IfStatement", "Literal", "LabeledStatement", "LogicalExpression", "MemberExpression",
   "MethodDefinition", "NewExpression", "ObjectExpression", "Program", "Property",
   "ReturnStatement", "SequenceExpression", "SwitchCase", "SwitchStatement", "ThisExpression",
   "ThrowStatement", "TryStatement", "UnaryExpression", "UpdateExpression", "VariableDeclaration",
   "VariableDeclarator", "WhileStatement", "WithStatement"]

/-- The node types that came with later editions. -/
def later : List String :=
  ["AssignmentPattern", "ArrayPattern", "ArrowFunctionExpression", "ClassBody", "ClassDeclaration",
   "ClassExpression", "ExportAllDeclaration", "ExportDefaultDeclaration",
   "ExportNamedDeclaration", "ExportSpecifier", "ImportDeclaration", "ImportDefaultSpecifier",
   "ImportNamespaceSpecifier", "ImportSpecifier", "ObjectPattern", "RestElement", "SpreadElement",
   "Super", "TaggedTemplateExpression", "TemplateElement", "TemplateLiteral"]

def all : List String :=
  supported ++ later

end EcmaScript.TypeName
