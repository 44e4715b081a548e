import EcmaScript.Character
import EcmaScript.Cursor

/-!
Layout between tokens: blanks, line terminators and comments. Besides the two usual comment forms,
an opening markup comment runs to the end of its line anywhere, and a closing one where only layout
stands before it on its line.
-/

namespace EcmaScript.Layout

open Scan Character

/-- Skips the rest of a line together with its terminator. -/
def skipLine (src : Source) : ScanM Unit :=
  repeated src (fun _ => do
    if ← atEnd src then pure (.inr ())
    else do
      let c ← next src
      if isLineTerminator c then do
        completeBreak src c
        countLine
        noteLineBreak true
        startLine
        pure (.inr ())
      else pure (.inl ())) ()

/-- Skips to the end of a block comment whose opening has been taken. -/
def skipBlock (src : Source) : ScanM Unit :=
  repeated src (fun _ => do
    if ← atEnd src then throw .illegal
    else do
      let c ← current src
      if isLineTerminator c then do
        if c = 0x0D then do
          if (← ahead src 1) = 0x0A then skip 1 else pure ()
        else pure ()
        countLine
        skip 1
        noteLineBreak true
        startLine
        pure (.inl ())
      else if c = 0x2A then do
        if (← ahead src 1) = 0x2F then do
          skip 2
          pure (.inr ())
        else do
          skip 1
          pure (.inl ())
      else do
        skip 1
        pure (.inl ())) ()

/-- One piece of layout. `fresh` tells whether only layout stands before it on its line; the answer
is the same for the piece after it, or nothing when a token starts here. -/
def piece (src : Source) (fresh : Bool) : ScanM (Bool ⊕ Unit) := do
  if ← atEnd src then pure (.inr ())
  else do
    let c ← current src
    if isWhiteSpace c then do
      skip 1
      pure (.inl fresh)
    else if isLineTerminator c then do
      noteLineBreak true
      skip 1
      completeBreak src c
      countLine
      startLine
      pure (.inl true)
    else if c = 0x2F then do
      let d ← ahead src 1
      if d = 0x2F then do
        skip 2
        skipLine src
        pure (.inl true)
      else if d = 0x2A then do
        skip 2
        skipBlock src
        pure (.inl fresh)
      else pure (.inr ())
    else if fresh && c = 0x2D then do
      if (← ahead src 1) = 0x2D then do
        if (← ahead src 2) = 0x3E then do
          skip 3
          skipLine src
          pure (.inl fresh)
        else pure (.inr ())
      else pure (.inr ())
    else if c = 0x3C then do
      let index := (← get).index
      if src.slice (index + 1) (index + 4) = Text.ofString "!--" then do
        skip 4
        skipLine src
        pure (.inl fresh)
      else pure (.inr ())
    else pure (.inr ())

/-- Skips layout up to the next token or the end, and notes whether it held a line terminator. -/
def skipAll (src : Source) : ScanM Unit := do
  noteLineBreak false
  repeated src (piece src) ((← get).index = 0)

end EcmaScript.Layout
