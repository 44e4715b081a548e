import EcmaScript.Grammar.Statement
import EcmaScript.Node.Attributes

/-!
Programs. Here the rules are tied together: a reader for depth `n + 1` reads nested constructs with
the reader for depth `n`. Each level takes a token at least, so the length of the source bounds the
depth that is needed.
-/

namespace EcmaScript

namespace Grammar

open Parse

/-- One rule for each goal. -/
def rule (reader : Reader) : Reader
  | .assignment => assignmentExpression reader
  | .unary => unaryExpression reader
  | .leftHandSide => leftHandSide reader
  | .statement => statement reader
  | .listItem => listItem reader

/-- Reads constructs nested to the given depth. -/
def readerOf : Nat → Reader
  | 0 => fun _ => throw .exhausted
  | depth + 1 => rule (readerOf depth)

/-- Depth enough for any program over the source. -/
def depthFor (source : Option Source) : Nat :=
  (source.map Array.size).getD 0 + 8

/-- Runs a rule with a reader deep enough for the source at hand. -/
def deep {α : Type} (p : Reader → ParseM α) : ParseM α := do
  p (readerOf (depthFor (← get).source))

/-- Directives, then statements up to the end of the source. -/
def scriptBody (reader : Reader) : ParseM (List Node) := do
  let body ← directives reader
  repeated (fun statements => do
    if ← inside then do
      let statement ← reader .listItem
      pure (.inl (statements ++ [statement]))
    else pure (.inr statements)) body

def program (reader : Reader) : ParseM Node := do
  peek
  let body ← scriptBody reader
  pure (.program body)

end Grammar

namespace Parser

/-- What is put after every program, so that the end of the source is never reached inside it. -/
def sentinel : Text :=
  Text.ofString " \n ; //END"

/-- A parser ready to read a program. -/
def begin (p : Parser) (code : Text) : Parser :=
  p.load (Source.ofText (code ++ sentinel)) 0 (some false) {} []

/-- Reads a program. A feature that is not supported is reported as a complaint about the line that
has been reached. -/
def program (p : Parser) (code : Text) : EStateM.Result Fault Parser Node :=
  match Grammar.deep Grammar.program (p.begin code) with
  | .ok node q => .ok node q
  | .error (.unsupported feature) q =>
    .error (.malformed (some q.cursor.lineNumber) (Fault.unsupportedText feature)) q
  | .error fault q => .error fault q

end Parser

/-- The syntax tree of a program. -/
def parse (settings : Settings) (code : Text) : Except Fault Node :=
  match Parser.program { settings } code with
  | .ok node _ => .ok node
  | .error fault _ => .error fault

end EcmaScript
