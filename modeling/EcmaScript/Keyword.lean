import EcmaScript.Character

/-!
Reserved words. Most are keywords in every program; `implements`, `interface`, `package`,
`private`, `protected`, `public` and `static` are plain names until strict code reserves them.
-/

namespace EcmaScript

inductive Keyword where
  | if_ | in_ | do_ | var | for_ | new | try_ | let_ | this | else_ | case_ | void | with_ | enum
  | while_ | break_ | catch_ | throw | const | yield | class_ | super | return_ | typeof | delete
  | switch | export_ | import_ | default | finally_ | extends_ | function | continue_ | debugger
  | instanceof | pyimport
  | implements | interface | package | private_ | protected_ | public_ | static
  deriving DecidableEq, Repr

namespace Keyword

def spelling : Keyword → String
  | if_ => "if"
  | in_ => "in"
  | do_ => "do"
  | var => "var"
  | for_ => "for"
  | new => "new"
  | try_ => "try"
  | let_ => "let"
  | this => "this"
  | else_ => "else"
  | case_ => "case"
  | void => "void"
  | with_ => "with"
  | enum => "enum"
  | while_ => "while"
  | break_ => "break"
  | catch_ => "catch"
  | throw => "throw"
  | const => "const"
  | yield => "yield"
  | class_ => "class"
  | super => "super"
  | return_ => "return"
  | typeof => "typeof"
  | delete => "delete"
  | switch => "switch"
  | export_ => "export"
  | import_ => "import"
  | default => "default"
  | finally_ => "finally"
  | extends_ => "extends"
  | function => "function"
  | continue_ => "continue"
  | debugger => "debugger"
  | instanceof => "instanceof"
  | pyimport => "pyimport"
  | implements => "implements"
  | interface => "interface"
  | package => "package"
  | private_ => "private"
  | protected_ => "protected"
  | public_ => "public"
  | static => "static"

def text (word : Keyword) : Text :=
  Text.ofString word.spelling

/-- The words that are keywords in every program. -/
def always : List Keyword :=
  [if_, in_, do_, var, for_, new, try_, let_, this, else_, case_, void, with_, enum, while_, break_,
   catch_, throw, const, yield, class_, super, return_, typeof, delete, switch, export_, import_,
   default, finally_, extends_, function, continue_, debugger, instanceof, pyimport]

/-- The words that strict code reserves. -/
def strictReserved : List Keyword :=
  [implements, interface, package, private_, protected_, public_, static, yield, let_]

/-- The words kept for later editions, which have a complaint of their own. -/
def futureReserved : List Keyword :=
  [enum, export_, import_, super]

def alwaysTable : List (Text × Keyword) :=
  always.map fun word => (word.text, word)

def strictTable : List (Text × Keyword) :=
  strictReserved.map fun word => (word.text, word)

/-- Reads a word that is a keyword in every program. -/
def ofText? (t : Text) : Option Keyword :=
  alwaysTable.lookup t

/-- Reads a word that strict code reserves. -/
def ofStrictText? (t : Text) : Option Keyword :=
  strictTable.lookup t

end Keyword

namespace Text

def isKeyword (t : Text) : Bool :=
  (Keyword.ofText? t).isSome

def isStrictReserved (t : Text) : Bool :=
  (Keyword.ofStrictText? t).isSome

def isFutureReserved (t : Text) : Bool :=
  Keyword.futureReserved.any (·.text = t)

/-- The two names that strict code may neither bind nor assign. -/
def isRestricted (t : Text) : Bool :=
  t = ofString "eval" || t = ofString "arguments"

/-- Starts like an identifier, goes on like one, and is no keyword. -/
def isValidIdentifier (t : Text) : Bool :=
  match t with
  | [] => false
  | c :: rest =>
    !t.isKeyword && Character.isIdentifierStart c && rest.all Character.isIdentifierPart

end Text

end EcmaScript
