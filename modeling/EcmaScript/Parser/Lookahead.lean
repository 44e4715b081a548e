import EcmaScript.Layout
import EcmaScript.Lexeme.Lexer
import EcmaScript.Lexeme.RegExpPattern
import EcmaScript.Parser.Complaint

/-!
Reading tokens: one token of lookahead, and tests and demands on it.
-/

namespace EcmaScript.Parse

def skipLayout : ParseM Unit := do
  modify fun p => { p with cursor := { p.cursor with lineBreak := some false } }
  scan Layout.skipAll

/-- The token at the cursor. -/
def advance : ParseM Token := do
  let p ← get
  scan fun src => Lexer.token src p.isStrict (p.start.map (·.lineStart))

/-- Gives the lookahead away and reads the next one. -/
def lex : ParseM (Option Token) := do
  modify fun p => { p.giving with scanning := some true, last := some p.cursor.toMark }
  skipLayout
  let token := (← get).lookahead
  modify fun p => { p with start := some p.cursor.toMark }
  let next ← advance
  modify fun p => { p with lookahead := some next, scanning := some false }
  pure token

/-- Reads the first lookahead. -/
def peek : ParseM Unit := do
  modify fun p => { p with scanning := some true }
  skipLayout
  modify fun p => { p with last := some p.cursor.toMark, start := some p.cursor.toMark }
  let next ← advance
  modify fun p => { p with lookahead := some next, scanning := some false }

/-- Takes the lookahead. -/
def take : ParseM Token := do
  match ← lex with
  | some token => pure token
  | none => throw .noLookahead

def drop : ParseM Unit := do
  let _ ← lex

/-- Reads a regular expression; the lookahead is lost. -/
def regExp : ParseM RegExp := do
  modify fun p => { p with scanning := some true, lookahead := none }
  skipLayout
  scan RegExp.scan

/-- Expands a pattern, which takes the place of the source. -/
def expandPattern (pattern : Text) : ParseM Text := do
  modify fun p =>
    { p with
      source := some (Source.ofText pattern)
      cursor := { p.cursor with index := 0, lineNumber := 0, lineStart := 0 } }
  scan RegExp.expand

def atMark (mark : Punctuator) : ParseM Bool := do
  return (← lookahead).lexeme = .punctuator mark

def atKeyword (word : Keyword) : ParseM Bool := do
  return (← lookahead).lexeme = .keyword word

def expect (mark : Punctuator) : ParseM Unit := do
  let token ← take
  if token.lexeme = .punctuator mark then pure () else unexpected token

def expectKeyword (word : Keyword) : ParseM Unit := do
  let token ← take
  if token.lexeme = .keyword word then pure () else unexpected token

/-- Whether the lookahead is of a kind and reads as the given text. -/
def atText (kind : TokenKind) (t : Text) : ParseM Bool := do
  return (← lookahead).lexeme.reads kind t

/-- Demands a token of a kind that reads as the given text. -/
def expectText (kind : TokenKind) (t : Text) : ParseM Unit := do
  let token ← take
  if token.lexeme.reads kind t then pure () else unexpected token

/-- Takes the semicolon that ends a statement. It may be left out before a closing brace, at the end
of the source, and where a line terminator stands instead. -/
def consumeSemicolon : ParseM Unit := do
  let src ← source
  let mark ← startMark
  if src[mark.index]? = some 0x3B then drop
  else do
    if ← atMark .semicolon then drop
    else do
      if ← afterLineBreak then pure ()
      else do
        modify fun p => { p with last := p.start }
        let token ← lookahead
        if token.lexeme = .endOfSource || token.lexeme = .punctuator .closeBrace then pure ()
        else unexpected token

end EcmaScript.Parse
