import EcmaScript.Lexeme.Escape

/-!
Regular expression literals. Only the extent of a literal is checked; its pattern is taken as it
stands.
-/

namespace EcmaScript

/-- A regular expression literal. `literal` is the spelling put together from its parts. -/
structure RegExp where
  pattern : Text
  flags : Text
  literal : Text
  raw : Text
  start : Nat
  stop : Nat
  deriving DecidableEq, Repr

namespace RegExp

open Scan Character

/-- The characters up to the slash that ends the pattern, which is taken too. A slash inside a
character class does not end it. -/
def patternTail (src : Source) : ScanM Text :=
  repeated src (fun (text, inClass) => do
    if ← atEnd src then throw .unterminatedRegExp
    else do
      let c ← next src
      if c = 0x5C then do
        let d ← next src
        if isLineTerminator d then throw .unterminatedRegExp
        else pure (.inl (text ++ [c, d], inClass))
      else if isLineTerminator c then throw .unterminatedRegExp
      else if inClass then pure (.inl (text ++ [c], c ≠ 0x5D))
      else if c = 0x2F then pure (.inr text)
      else pure (.inl (text ++ [c], decide (c = 0x5B)))) ([], false)

/-- The pattern between the slashes. -/
def scanPattern (src : Source) : ScanM Text := do
  if (← current src) = 0x2F then do
    skip 1
    patternTail src
  else throw .notRegExp

/-- A backslash among the flags, with something after it, is refused once the escape it starts has
been looked at. -/
def refuseEscape {α : Type} (src : Source) : ScanM α := do
  if (← current src) = 0x75 then do
    skip 1
    let restore := (← get).index
    match ← Escape.hex src 4 with
    | some _ => throw .illegal
    | none => do
      moveTo restore
      throw .illegal
  else throw .illegal

/-- The flags after the closing slash. -/
def scanFlags (src : Source) : ScanM Text :=
  repeated src (fun flags => do
    if ← atEnd src then pure (.inr flags)
    else do
      let c ← current src
      if isIdentifierPart c then do
        skip 1
        if c = 0x5C then do
          if ← atEnd src then pure (.inl (flags ++ [c])) else refuseEscape src
        else pure (.inl (flags ++ [c]))
      else pure (.inr flags)) []

/-- The spelling of a pattern between its slashes. -/
def delimited (pattern : Text) : Text :=
  0x2F :: pattern ++ [0x2F]

/-- The literal at the cursor. -/
def scan (src : Source) : ScanM RegExp := do
  let start := (← get).index
  let pattern ← scanPattern src
  let flags ← scanFlags src
  let stop := (← get).index
  pure
    { pattern, flags, literal := delimited pattern ++ flags, raw := src.slice start stop, start
      stop }

end RegExp

end EcmaScript
