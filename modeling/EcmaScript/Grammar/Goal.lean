import EcmaScript.Node
import EcmaScript.Parser.Cover
import EcmaScript.Parser.Lookahead

/-!
The grammar is recursive in five places only. Every rule is written over a reader for these goals,
and the rules are tied together at the end, in `Grammar.Program`.
-/

namespace EcmaScript

/-- What a rule may read inside a construct that it has already begun. -/
inductive Goal where
  | assignment | unary | leftHandSide | statement | listItem
  deriving DecidableEq, Repr

abbrev Reader := Goal → ParseM Node

end EcmaScript
