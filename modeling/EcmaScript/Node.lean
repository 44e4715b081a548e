import EcmaScript.Operator
import EcmaScript.Value

/-!
Syntax trees. There is one constructor for each kind of node, with exactly the parts that the kind
has; `none` stands only where a part is optional, such as a hole in an array.
-/

namespace EcmaScript

inductive DeclarationKind where
  | var | let_ | const
  deriving DecidableEq, Repr

inductive PropertyKind where
  | init | get | set
  deriving DecidableEq, Repr

/-- The value of a literal. -/
inductive Literal where
  | null
  | boolean (value : Bool)
  | number (value : Number)
  | string (value : Text)
  | regExp (pattern flags : Text)
  deriving DecidableEq, Repr

inductive Node where
  | program (body : List Node)
  | emptyStatement
  | debuggerStatement
  | blockStatement (body : List Node)
  | expressionStatement (expression : Node)
  | ifStatement (test consequent : Node) (alternate : Option Node)
  | doWhileStatement (body test : Node)
  | whileStatement (test body : Node)
  | forStatement (init test update : Option Node) (body : Node)
  | forInStatement (left right body : Node)
  | continueStatement (label : Option Node)
  | breakStatement (label : Option Node)
  | returnStatement (argument : Option Node)
  | withStatement (object body : Node)
  | switchStatement (discriminant : Node) (cases : List Node)
  | switchCase (test : Option Node) (consequent : List Node)
  | labeledStatement (label body : Node)
  | throwStatement (argument : Node)
  | tryStatement (block : Node) (handler finalizer : Option Node)
  | catchClause (param body : Node)
  | variableDeclaration (kind : DeclarationKind) (declarations : List Node)
  | variableDeclarator (id : Node) (init : Option Node)
  | functionDeclaration (id : Option Node) (params : List Node) (defaults : List (Option Node))
      (body : Node)
  | pyimportStatement (module : Node)
  | thisExpression
  | identifier (name : Text)
  | literal (value : Literal) (raw : Text)
  | arrayExpression (elements : List (Option Node))
  | objectExpression (properties : List Node)
  | property (kind : PropertyKind) (key : Node) (computed : Bool) (value : Node)
      (method shorthand : Bool)
  | functionExpression (id : Option Node) (params : List Node) (defaults : List (Option Node))
      (body : Node)
  | unaryExpression (operator : UnaryOperator) (argument : Node)
  | updateExpression (operator : UpdateOperator) (prefixed : Bool) (argument : Node)
  | binaryExpression (operator : BinaryOperator) (left right : Node)
  | assignmentExpression (operator : AssignmentOperator) (left right : Node)
  | conditionalExpression (test consequent alternate : Node)
  | sequenceExpression (expressions : List Node)
  | memberExpression (computed : Bool) (object property : Node)
  | callExpression (callee : Node) (arguments : List Node)
  | newExpression (callee : Node) (arguments : List Node)
  | arrayPattern (elements : List (Option Node))
  | objectPattern (properties : List Node)
  | assignmentPattern (left right : Node)
  | spreadElement (argument : Node)
  | restElement (argument : Node)
  deriving Inhabited

namespace Node

/-- The name of an identifier. -/
def name? : Node → Option Text
  | identifier name => some name
  | _ => none

/-- Whether the node is one of the names that strict code may neither bind nor assign. -/
def isRestrictedName (node : Node) : Bool :=
  node.name?.any Text.isRestricted

def isLiteral : Node → Bool
  | literal .. => true
  | _ => false

mutual

/-- The same tree as an assignment target: array and object expressions become patterns all the way
down to names, members and defaults. There is none if something else stands in a target place. -/
def asPattern? : Node → Option Node
  | identifier name => some (identifier name)
  | memberExpression computed object member => some (memberExpression computed object member)
  | restElement argument => some (restElement argument)
  | assignmentPattern left right => some (assignmentPattern left right)
  | spreadElement argument => (asPattern? argument).map restElement
  | arrayExpression elements => (elementsAsPatterns? elements).map arrayPattern
  | objectExpression properties => (propertiesAsPatterns? properties).map objectPattern
  | _ => none

def elementsAsPatterns? : List (Option Node) → Option (List (Option Node))
  | [] => some []
  | none :: rest => (elementsAsPatterns? rest).map (none :: ·)
  | some element :: rest =>
    match asPattern? element with
    | some pattern => (elementsAsPatterns? rest).map (some pattern :: ·)
    | none => none

def propertiesAsPatterns? : List Node → Option (List Node)
  | [] => some []
  | property kind key computed value method shorthand :: rest =>
    match asPattern? value with
    | some pattern =>
      (propertiesAsPatterns? rest).map (property kind key computed pattern method shorthand :: ·)
    | none => none
  | _ :: _ => none

end

end Node

end EcmaScript
