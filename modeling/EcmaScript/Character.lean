import EcmaScript.Character.Ranges

/-!
Classes of characters: what may start or continue an identifier, blanks, line terminators and the
digits of each radix.
-/

namespace EcmaScript.Character

/-- Membership in ascending ranges; the search stops at the first range above the code point. -/
def inRanges (c : CodePoint) : List (CodePoint × CodePoint) → Bool
  | [] => false
  | (low, high) :: rest => if c < low then false else c ≤ high || inRanges c rest

def letterCategories : List String := ["Lu", "Ll", "Lt", "Lm", "Lo", "Nl"]

def combiningMarkCategories : List String := ["Mn", "Mc"]

def digitCategories : List String := ["Nd"]

def connectorCategories : List String := ["Pc"]

/-- Besides letters, a dollar sign, a low line or the backslash of an escape starts an identifier. -/
def extraStarts : List CodePoint := [0x24, 0x5F, 0x5C]

/-- An identifier may also go on with a zero-width joiner or non-joiner. -/
def extraParts : List CodePoint := extraStarts ++ [0x200D, 0x200C]

def isIdentifierStart (c : CodePoint) : Bool :=
  inRanges c letterRanges || extraStarts.contains c

def isIdentifierPart (c : CodePoint) : Bool :=
  inRanges c letterRanges || inRanges c markRanges || extraParts.contains c

def whiteSpace : List CodePoint :=
  [0x20, 0x09, 0x0B, 0x0C, 0xA0, 0x1680, 0x180E, 0x2000, 0x2001, 0x2002, 0x2003, 0x2004, 0x2005,
   0x2006, 0x2007, 0x2008, 0x2009, 0x200A, 0x202F, 0x205F, 0x3000, 0xFEFF]

def lineTerminators : List CodePoint := [0x0A, 0x0D, 0x2028, 0x2029]

def isWhiteSpace (c : CodePoint) : Bool :=
  whiteSpace.contains c

def isLineTerminator (c : CodePoint) : Bool :=
  lineTerminators.contains c

def isDecimalDigit (c : CodePoint) : Bool :=
  0x30 ≤ c && c ≤ 0x39

def isOctalDigit (c : CodePoint) : Bool :=
  0x30 ≤ c && c ≤ 0x37

def isBinaryDigit (c : CodePoint) : Bool :=
  c == 0x30 || c == 0x31

def isHexDigit (c : CodePoint) : Bool :=
  isDecimalDigit c || (0x61 ≤ c && c ≤ 0x66) || (0x41 ≤ c && c ≤ 0x46)

/-- The value of a digit in any radix up to sixteen. -/
def digitValue (c : CodePoint) : Nat :=
  if c ≤ 0x39 then c - 0x30 else if c ≤ 0x46 then c - 0x37 else c - 0x57

/-- The number that a run of digits denotes in the given radix. -/
def positional (radix : Nat) (digits : Text) : Nat :=
  digits.foldl (fun value c => value * radix + digitValue c) 0

end EcmaScript.Character
