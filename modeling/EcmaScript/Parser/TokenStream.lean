import EcmaScript.Parser.Lookahead

/-!
The tokens of a source, read one after another without any grammar.
-/

namespace EcmaScript

/-- Tokens with what is known of the line break before each, the parser after the last one, and the
fault that ended the reading early. -/
structure TokenStream where
  tokens : List (Token × Option Bool)
  parser : Parser
  fault : Option Fault

namespace TokenStream

/-- The lookahead and the tokens after it, up to the end of the source. -/
def rest : Nat → Parser → TokenStream
  | 0, p => { tokens := [], parser := p, fault := some .exhausted }
  | rounds + 1, p =>
    match p.lookahead with
    | none => { tokens := [], parser := p, fault := some .noLookahead }
    | some token =>
      let entry := (token, p.cursor.lineBreak)
      if token.lexeme = .endOfSource then { tokens := [entry], parser := p, fault := none }
      else
        match Parse.lex p with
        | .error fault q => { tokens := [entry], parser := q, fault := some fault }
        | .ok _ q =>
          let following := rest rounds q
          { following with tokens := entry :: following.tokens }

/-- The tokens that a loaded parser meets. Every token but the last takes a character at least. -/
def read (p : Parser) : TokenStream :=
  match Parse.peek p with
  | .error fault q => { tokens := [], parser := q, fault := some fault }
  | .ok _ q => rest ((p.source.map Array.size).getD 0 + 2) q

end TokenStream

end EcmaScript
