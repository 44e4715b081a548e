import EcmaScript.Parser

/-!
A view of the source around the cursor.
-/

namespace EcmaScript.Parser

/-- The index of the cursor, and up to ten characters before and after it. -/
def surroundings (p : Parser) : Except Fault Text :=
  match p.source with
  | none => .error .noSource
  | some src =>
    let index : Int := p.cursor.index
    .ok (Text.ofString "INDEX " ++ Text.ofInt index ++ [0x0A]
      ++ src.window (index - 10) (index + 10) ++ [0x0A, 0x0A])

end EcmaScript.Parser
