import EcmaScript.Fault

/-!
A place in a source and the primitive moves on it. A scanner is a state computation on the cursor:
when it fails, the cursor stays where the trouble was found.
-/

namespace EcmaScript

/-- A position with its line: the number of the line and where the line starts. -/
structure Mark where
  index : Nat
  lineNumber : Nat
  lineStart : Nat
  deriving DecidableEq, Repr

/-- An open brace: of a block or object, or of a substitution in a template. -/
inductive Brace where
  | block | substitution
  deriving DecidableEq, Repr

/-- `lineBreak` tells whether the layout skipped last held a line terminator; `braces` holds the
open braces, innermost last, once a source is loaded. -/
structure Cursor extends Mark where
  lineBreak : Option Bool := none
  braces : Option (List Brace) := none
  deriving DecidableEq, Repr

/-- Repeats `body` from `a` until it answers, at most `rounds` times. -/
def iterate {ε σ α β : Type} (spent : ε) (body : α → EStateM ε σ (α ⊕ β)) :
    Nat → α → EStateM ε σ β
  | 0, _ => throw spent
  | rounds + 1, a => do
    match ← body a with
    | .inl next => iterate spent body rounds next
    | .inr answer => pure answer

abbrev ScanM := EStateM ScanFault Cursor

namespace Scan

/-- Rounds enough for any loop that moves the cursor in every round. -/
def repeated {α β : Type} (src : Source) (body : α → ScanM (α ⊕ β)) (a : α) : ScanM β :=
  iterate .exhausted body (src.size + 1) a

def atEnd (src : Source) : ScanM Bool := do
  return src.size ≤ (← get).index

/-- The character `offset` places after the cursor. -/
def ahead (src : Source) (offset : Nat) : ScanM CodePoint := do
  match src[(← get).index + offset]? with
  | some c => pure c
  | none => throw .pastEnd

def current (src : Source) : ScanM CodePoint :=
  ahead src 0

def skip (n : Nat) : ScanM Unit :=
  modify fun c => { c with index := c.index + n }

/-- Takes the character under the cursor. -/
def next (src : Source) : ScanM CodePoint := do
  let c ← current src
  skip 1
  pure c

def moveTo (index : Nat) : ScanM Unit :=
  modify fun c => { c with index }

def countLine : ScanM Unit :=
  modify fun c => { c with lineNumber := c.lineNumber + 1 }

def startLine : ScanM Unit :=
  modify fun c => { c with lineStart := c.index }

def noteLineBreak (seen : Bool) : ScanM Unit :=
  modify fun c => { c with lineBreak := some seen }

/-- After a carriage return, takes the line feed that belongs to it. -/
def completeBreak (src : Source) (terminator : CodePoint) : ScanM Unit :=
  if terminator = 0x0D then do
    if (← current src) = 0x0A then skip 1 else pure ()
  else pure ()

/-- How many characters from `index` on belong to the class, counted up to a bound. -/
def runLength (src : Source) (member : CodePoint → Bool) : Nat → Nat → Nat
  | 0, _ => 0
  | bound + 1, index =>
    match src[index]? with
    | some c => if member c then runLength src member bound (index + 1) + 1 else 0
    | none => 0

/-- Takes the longest run of characters of a class. -/
def run (src : Source) (member : CodePoint → Bool) : ScanM Text := do
  let start := (← get).index
  let stop := start + runLength src member (src.size - start) start
  moveTo stop
  pure (src.slice start stop)

def openBrace (brace : Brace) : ScanM Unit := do
  match (← get).braces with
  | some braces => modify fun c => { c with braces := some (braces ++ [brace]) }
  | none => throw .noContext

def closeBrace : ScanM Unit := do
  match (← get).braces with
  | some [] => throw .noOpenBrace
  | some braces => modify fun c => { c with braces := some braces.dropLast }
  | none => throw .noContext

end Scan

end EcmaScript
