import EcmaScript.Grammar.Program

/-!
The rules of the grammar by their names, for tools that read a part of a program on its own.
-/

namespace EcmaScript.Grammar

open Parse

/-- The rules that read one node. -/
def nodeRules : List (String × (Reader → ParseM Node)) :=
  [("ArrayPattern", fun _ => arrayPattern),
   ("PropertyPattern", propertyPattern),
   ("ObjectPattern", fun _ => objectPattern),
   ("Pattern", fun _ => .identifier <$> pattern),
   ("PatternWithDefault", patternWithDefault),
   ("ArrayInitialiser", arrayInitializer),
   ("PropertyMethodFunction", method),
   ("ObjectPropertyKey", propertyKey),
   ("ObjectInitialiser", objectInitializer),
   ("TemplateLiteral", fun _ => templateLiteral),
   ("GroupExpression", group),
   ("PrimaryExpression", primary),
   ("NonComputedProperty", fun _ => dottedName),
   ("NonComputedMember", fun _ => dottedMember),
   ("ComputedMember", computedMember),
   ("NewExpression", newExpression),
   ("LeftHandSideExpressionAllowCall", leftHandSideAllowCall),
   ("LeftHandSideExpression", leftHandSide),
   ("PostfixExpression", postfixExpression),
   ("UnaryExpression", unaryExpression),
   ("BinaryExpression", binaryExpression),
   ("ConditionalExpression", conditionalExpression),
   ("ConciseBody", conciseBody),
   ("AssignmentExpression", assignmentExpression),
   ("Expression", expression),
   ("StatementListItem", listItem),
   ("PyimportStatement", fun _ => pyimportStatement),
   ("Block", block),
   ("VariableIdentifier", fun _ => bindingIdentifier),
   ("VariableDeclaration", variableDeclarator),
   ("RestElement", fun _ => restElement),
   ("SwitchCase", switchCase),
   ("CatchClause", catchClause),
   ("Statement", statement),
   ("FunctionSourceElements", functionBody),
   ("FunctionExpression", functionExpression),
   ("ClassExpression", fun _ => unsupported "ClassExpression"),
   ("ClassDeclaration", fun _ => unsupported "ClassDeclaration"),
   ("Program", program)]

/-- The rules that read a statement into a node made before. -/
def statementRules : List (String × (Reader → ParseM Node)) :=
  [("VariableStatement", variableStatement),
   ("EmptyStatement", fun _ => emptyStatement),
   ("ExpressionStatement", expressionStatement),
   ("IfStatement", ifStatement),
   ("DoWhileStatement", doWhileStatement),
   ("WhileStatement", whileStatement),
   ("ForStatement", forStatement),
   ("ContinueStatement", fun _ => continueStatement),
   ("BreakStatement", fun _ => breakStatement),
   ("ReturnStatement", returnStatement),
   ("WithStatement", withStatement),
   ("SwitchStatement", switchStatement),
   ("ThrowStatement", throwStatement),
   ("TryStatement", tryStatement),
   ("DebuggerStatement", fun _ => debuggerStatement),
   ("FunctionDeclaration", fun reader => functionDeclaration reader false)]

/-- The rules that read a list of nodes. -/
def listRules : List (String × (Reader → ParseM (List Node))) :=
  [("Arguments", arguments),
   ("StatementList", fun reader => statementsFrom reader []),
   ("VariableDeclarationList", variableDeclarators),
   ("ScriptBody", scriptBody)]

end EcmaScript.Grammar
