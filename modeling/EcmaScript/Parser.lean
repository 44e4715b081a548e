import EcmaScript.Cursor
import EcmaScript.Token

/-!
The registers of a parser and the computations on them. A failing computation leaves the registers
as they were when it failed. Before a source is loaded most registers are empty.
-/

namespace EcmaScript

/-- What the enclosing constructs allow. `labels` holds the labels of the enclosing statements of
the same function. -/
structure Context where
  allowIn : Bool := true
  labels : List Text := []
  inFunctionBody : Bool := false
  inIteration : Bool := false
  inSwitch : Bool := false
  lastCommentStart : Int := -1
  parenthesizedCount : Option Int := none
  deriving DecidableEq, Repr

/-- `pyimport` admits import statements of that name; `hostErrors` has malformed programs reported
as errors of the host. -/
structure Settings where
  pyimport : Bool := false
  hostErrors : Bool := false
  deriving DecidableEq, Repr

/-- `last` is where the token before the lookahead ended, `start` is where the lookahead starts.
The three registers after the context tell whether what was read last could still be a binding or an
assignment target, and keep the first token that only a target could hold. `taken` lists where the
tokens given away so far started, the last one first; it is a record, and no rule looks at it. -/
structure Parser where
  source : Option Source := none
  settings : Settings := {}
  cursor : Cursor := { index := 0, lineNumber := 1, lineStart := 0 }
  last : Option Mark := none
  start : Option Mark := none
  scanning : Option Bool := none
  strict : Option Bool := none
  lookahead : Option Token := none
  context : Option Context := none
  bindingElement : Option Bool := none
  assignmentTarget : Option Bool := none
  coverInitialized : Option Token := none
  taken : List Nat := []

namespace Parser

/-- Empties all registers except the source. -/
def clean (p : Parser) : Parser :=
  { source := p.source, settings := p.settings }

/-- A parser about to read a source from the given index. -/
def load (p : Parser) (src : Source) (index : Nat) (strict : Option Bool) (context : Context)
    (braces : List Brace) : Parser :=
  { p.clean with
    source := some src
    cursor := { index, lineNumber := 1, lineStart := 0, braces := some braces }
    start := some { index, lineNumber := 1, lineStart := 0 }
    strict
    context := some context }

def isStrict (p : Parser) : Bool :=
  p.strict = some true

/-- Records that the lookahead is given away. -/
def giving (p : Parser) : Parser :=
  { p with taken := (p.start.map (·.index)).toList ++ p.taken }

/-- The line of trouble that belongs to no token: the line being scanned, or else the line where
the last token ended. -/
def troubleLine (p : Parser) : Option Nat :=
  if p.scanning = some true then some p.cursor.lineNumber else p.last.map (·.lineNumber)

end Parser

abbrev ParseM := EStateM Fault Parser

namespace Parse

def source : ParseM Source := do
  match (← get).source with
  | some src => pure src
  | none => throw .noSource

def context : ParseM Context := do
  match (← get).context with
  | some context => pure context
  | none => throw .noContext

def changeContext (change : Context → Context) : ParseM Unit := do
  let context ← context
  modify fun p => { p with context := some (change context) }

def lookahead : ParseM Token := do
  match (← get).lookahead with
  | some token => pure token
  | none => throw .noLookahead

def lastMark : ParseM Mark := do
  match (← get).last with
  | some mark => pure mark
  | none => throw .noPosition

def startMark : ParseM Mark := do
  match (← get).start with
  | some mark => pure mark
  | none => throw .noPosition

def isStrict : ParseM Bool := do
  return (← get).isStrict

/-- Whether the lookahead starts inside the source. -/
def inside : ParseM Bool := do
  let src ← source
  let mark ← startMark
  return mark.index < src.size

/-- The character at an index of the source. -/
def characterAt (index : Nat) : ParseM CodePoint := do
  let src ← source
  match src[index]? with
  | some c => pure c
  | none => throw .pastEnd

/-- Whether the layout before the lookahead held a line terminator. -/
def afterLineBreak : ParseM Bool := do
  return (← get).cursor.lineBreak = some true

/-- Rounds enough for any loop that takes a token in every round. -/
def repeated {α β : Type} (body : α → ParseM (α ⊕ β)) (a : α) : ParseM β := do
  let size := ((← get).source.map Array.size).getD 0
  iterate .exhausted body (size + 8) a

end Parse

end EcmaScript
