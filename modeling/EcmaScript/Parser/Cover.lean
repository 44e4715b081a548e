import EcmaScript.Parser.Complaint

/-!
Cover grammar. Until its end an expression in parentheses, brackets or braces may turn out to be an
assignment target, so three registers record whether it still can and whether it must: `{a = 1}` is
only a target. A part of an expression either stands on its own or shares the fate of the whole.
-/

namespace EcmaScript.Parse

/-- Nothing read so far rules out a binding or an assignment target. -/
def openCover : ParseM Unit :=
  modify fun p =>
    { p with bindingElement := some true, assignmentTarget := some true, coverInitialized := none }

/-- What was read last is an expression only. -/
def expressionOnly : ParseM Unit :=
  modify fun p => { p with assignmentTarget := some false, bindingElement := some false }

/-- The second register, unless the first one already fails. -/
def both (first second : Option Bool) : Option Bool :=
  if first = some true then second else first

/-- Reads a part that stands on its own; it may not hold what only a target could. -/
def isolated {α : Type} (part : ParseM α) : ParseM α := do
  let before ← get
  openCover
  let result ← part
  match (← get).coverInitialized with
  | some token => unexpected token
  | none => do
    modify fun p =>
      { p with
        bindingElement := before.bindingElement
        assignmentTarget := before.assignmentTarget
        coverInitialized := before.coverInitialized }
    pure result

/-- Reads a part that shares the fate of the whole. -/
def inherited {α : Type} (part : ParseM α) : ParseM α := do
  let before ← get
  openCover
  let result ← part
  modify fun p =>
    { p with
      bindingElement := both p.bindingElement before.bindingElement
      assignmentTarget := both p.assignmentTarget before.assignmentTarget
      coverInitialized := before.coverInitialized.or p.coverInitialized }
  pure result

end EcmaScript.Parse
