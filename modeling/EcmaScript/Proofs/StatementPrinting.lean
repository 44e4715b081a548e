import EcmaScript.Proofs.Printing

/-!
Statements on their own, and how they are written. Every expression in a `Statement` is a name. A
`Statement` can only hold what a statement of the language can: an `else` follows a block, a `try`
has a handler or a finalizer, and one clause of a `switch` at most is a default. Whether jumps lead
to places that exist is left to the scope of the tree.
-/

namespace EcmaScript

/-! ### Statements -/

structure Declarator where
  name : Name
  init : Option Name

/-- What may stand before the first semicolon in the head of a `for` statement. -/
inductive ForInit where
  | expression (name : Name)
  | var (first : Declarator) (more : List Declarator)

/-- What may stand before the keyword `in` in the head of a `for` statement. -/
inductive ForTarget where
  | name (name : Name)
  | declared (declarator : Declarator)

/-- A clause of a `switch` statement is a pair of its test and its statements. -/
inductive Statement where
  | empty
  | expression (name : Name)
  | block (body : List Statement)
  | var (first : Declarator) (more : List Declarator)
  | if_ (test : Name) (consequent : Statement)
  | ifElse (test : Name) (consequent : List Statement) (alternate : Statement)
  | while_ (test : Name) (body : Statement)
  | doWhile (body : Statement) (test : Name)
  | for_ (init : Option ForInit) (test update : Option Name) (body : Statement)
  | forIn (left : ForTarget) (right : Name) (body : Statement)
  | labeled (label : Name) (body : Statement)
  | break_ (label : Option Name)
  | continue_ (label : Option Name)
  | return_ (argument : Option Name)
  | throw (argument : Name)
  | tryCatch (body : List Statement) (param : Name) (handler : List Statement)
  | tryFinally (body finalizer : List Statement)
  | tryCatchFinally (body : List Statement) (param : Name) (handler finalizer : List Statement)
  | switch (discriminant : Name) (clauses : List (Name × List Statement))
  | switchDefault (discriminant : Name) (before : List (Name × List Statement))
      (default : List Statement) (after : List (Name × List Statement))
  | with_ (object : Name) (body : Statement)
  | debugger
  | function (name : Name) (params : List Name) (body : List Statement)

/-! ### Trees -/

def Name.toNode (name : Name) : Node :=
  .identifier name.text

def Declarator.toNode (declarator : Declarator) : Node :=
  .variableDeclarator declarator.name.toNode (declarator.init.map Name.toNode)

def Declarator.declaration (first : Declarator) (more : List Declarator) : Node :=
  .variableDeclaration .var ((first :: more).map toNode)

def ForInit.toNode : ForInit → Node
  | .expression name => name.toNode
  | .var first more => Declarator.declaration first more

def ForTarget.toNode : ForTarget → Node
  | .name target => target.toNode
  | .declared declarator => Declarator.declaration declarator []

mutual

def Statement.toNode : Statement → Node
  | .empty => .emptyStatement
  | .expression name => .expressionStatement name.toNode
  | .block body => .blockStatement (Statement.toNodes body)
  | .var first more => Declarator.declaration first more
  | .if_ test consequent => .ifStatement test.toNode consequent.toNode none
  | .ifElse test consequent alternate =>
    .ifStatement test.toNode (.blockStatement (Statement.toNodes consequent)) (some alternate.toNode)
  | .while_ test body => .whileStatement test.toNode body.toNode
  | .doWhile body test => .doWhileStatement body.toNode test.toNode
  | .for_ init test update body =>
    .forStatement (init.map ForInit.toNode) (test.map Name.toNode) (update.map Name.toNode) body.toNode
  | .forIn left right body => .forInStatement left.toNode right.toNode body.toNode
  | .labeled label body => .labeledStatement label.toNode body.toNode
  | .break_ label => .breakStatement (label.map Name.toNode)
  | .continue_ label => .continueStatement (label.map Name.toNode)
  | .return_ argument => .returnStatement (argument.map Name.toNode)
  | .throw argument => .throwStatement argument.toNode
  | .tryCatch body param handler =>
    .tryStatement (.blockStatement (Statement.toNodes body))
      (some (.catchClause param.toNode (.blockStatement (Statement.toNodes handler)))) none
  | .tryFinally body finalizer =>
    .tryStatement (.blockStatement (Statement.toNodes body)) none
      (some (.blockStatement (Statement.toNodes finalizer)))
  | .tryCatchFinally body param handler finalizer =>
    .tryStatement (.blockStatement (Statement.toNodes body))
      (some (.catchClause param.toNode (.blockStatement (Statement.toNodes handler))))
      (some (.blockStatement (Statement.toNodes finalizer)))
  | .switch discriminant clauses =>
    .switchStatement discriminant.toNode (Statement.toClauses clauses)
  | .switchDefault discriminant before default after =>
    .switchStatement discriminant.toNode (Statement.toClauses before ++
      .switchCase none (Statement.toNodes default) :: Statement.toClauses after)
  | .with_ object body => .withStatement object.toNode body.toNode
  | .debugger => .debuggerStatement
  | .function name params body =>
    .functionDeclaration (some name.toNode) (params.map Name.toNode) []
      (.blockStatement (Statement.toNodes body))

def Statement.toNodes : List Statement → List Node
  | [] => []
  | first :: rest => first.toNode :: Statement.toNodes rest

def Statement.toClauses : List (Name × List Statement) → List Node
  | [] => []
  | (test, body) :: rest =>
    .switchCase (some test.toNode) (Statement.toNodes body) :: Statement.toClauses rest

end

/-! ### Pieces of text -/

def inBraces (pieces : List Piece) : List Piece :=
  .mark .openBrace :: (pieces ++ [Piece.mark .closeBrace])

def Name.piece (name : Name) : Piece :=
  .word name.toWord

def Name.pieces? (name : Option Name) : List Piece :=
  name.toList.map piece

def Declarator.pieces (declarator : Declarator) : List Piece :=
  match declarator.init with
  | none => [declarator.name.piece]
  | some init => [declarator.name.piece, .mark .assign, init.piece]

def Declarator.listPieces (first : Declarator) (more : List Declarator) : List Piece :=
  first.pieces ++ more.flatMap fun next => .mark .comma :: next.pieces

def ForInit.pieces : ForInit → List Piece
  | .expression name => [name.piece]
  | .var first more => .keyword .var :: Declarator.listPieces first more

/-- The pieces of what may be missing before the first semicolon. -/
def ForInit.pieces? : Option ForInit → List Piece
  | none => []
  | some init => init.pieces

def ForTarget.pieces : ForTarget → List Piece
  | .name target => [target.piece]
  | .declared declarator => .keyword .var :: declarator.pieces

/-- The names of parameters with commas between them. -/
def Name.listPieces : List Name → List Piece
  | [] => []
  | first :: rest => first.piece :: rest.flatMap fun next => [.mark .comma, next.piece]

mutual

def Statement.pieces : Statement → List Piece
  | .empty => [.mark .semicolon]
  | .expression name => [name.piece, .mark .semicolon]
  | .block body => inBraces (Statement.listPieces body)
  | .var first more =>
    .keyword .var :: (Declarator.listPieces first more ++ [.mark .semicolon])
  | .if_ test consequent => .keyword .if_ :: (inParens [test.piece] ++ consequent.pieces)
  | .ifElse test consequent alternate =>
    .keyword .if_ :: (inParens [test.piece] ++
      (inBraces (Statement.listPieces consequent) ++ .keyword .else_ :: alternate.pieces))
  | .while_ test body => .keyword .while_ :: (inParens [test.piece] ++ body.pieces)
  | .doWhile body test =>
    .keyword .do_ :: (body.pieces ++ .keyword .while_ :: (inParens [test.piece] ++ [.mark .semicolon]))
  | .for_ init test update body =>
    .keyword .for_ :: (inParens (ForInit.pieces? init ++ .mark .semicolon ::
      (Name.pieces? test ++ .mark .semicolon :: Name.pieces? update)) ++ body.pieces)
  | .forIn left right body =>
    .keyword .for_ :: (inParens (left.pieces ++ [.keyword .in_, right.piece]) ++ body.pieces)
  | .labeled label body => label.piece :: .mark .colon :: body.pieces
  | .break_ label => .keyword .break_ :: (Name.pieces? label ++ [.mark .semicolon])
  | .continue_ label => .keyword .continue_ :: (Name.pieces? label ++ [.mark .semicolon])
  | .return_ argument => .keyword .return_ :: (Name.pieces? argument ++ [.mark .semicolon])
  | .throw argument => [.keyword .throw, argument.piece, .mark .semicolon]
  | .tryCatch body param handler =>
    .keyword .try_ :: (inBraces (Statement.listPieces body) ++
      .keyword .catch_ :: (inParens [param.piece] ++ inBraces (Statement.listPieces handler)))
  | .tryFinally body finalizer =>
    .keyword .try_ :: (inBraces (Statement.listPieces body) ++
      .keyword .finally_ :: inBraces (Statement.listPieces finalizer))
  | .tryCatchFinally body param handler finalizer =>
    .keyword .try_ :: (inBraces (Statement.listPieces body) ++
      .keyword .catch_ :: (inParens [param.piece] ++ (inBraces (Statement.listPieces handler) ++
        .keyword .finally_ :: inBraces (Statement.listPieces finalizer))))
  | .switch discriminant clauses =>
    .keyword .switch :: (inParens [discriminant.piece] ++ inBraces (Statement.clausePieces clauses))
  | .switchDefault discriminant before default after =>
    .keyword .switch :: (inParens [discriminant.piece] ++
      inBraces (Statement.clausePieces before ++ .keyword .default :: .mark .colon ::
        (Statement.listPieces default ++ Statement.clausePieces after)))
  | .with_ object body => .keyword .with_ :: (inParens [object.piece] ++ body.pieces)
  | .debugger => [.keyword .debugger, .mark .semicolon]
  | .function name params body =>
    .keyword .function :: name.piece ::
      (inParens (Name.listPieces params) ++ inBraces (Statement.listPieces body))

def Statement.listPieces : List Statement → List Piece
  | [] => []
  | first :: rest => first.pieces ++ Statement.listPieces rest

def Statement.clausePieces : List (Name × List Statement) → List Piece
  | [] => []
  | (test, body) :: rest =>
    .keyword .case_ :: test.piece :: .mark .colon ::
      (Statement.listPieces body ++ Statement.clausePieces rest)

end

/-- What stands before a piece that is not the first one: a blank, which may be left out before a
semicolon unless semicolons stand apart. -/
def gapBefore (apart : Bool) : Piece → Text
  | .mark .semicolon => if apart then [0x20] else []
  | _ => [0x20]

def spellOut (apart : Bool) : List Piece → Text
  | [] => []
  | first :: rest => first.text ++ rest.flatMap fun next => gapBefore apart next ++ next.text

def Statement.print (apart : Bool) (statements : List Statement) : Text :=
  spellOut apart (Statement.listPieces statements)

end EcmaScript
