/-!
Text as a sequence of Unicode code points. Source text may hold surrogates that stand alone, and
every position counts code points, so neither `String` nor its bytes serve; a `Text` is a plain
list of code points, and a `Source` is the same thing with constant-time access.
-/

namespace EcmaScript

abbrev CodePoint := Nat

abbrev Text := List CodePoint

abbrev Source := Array CodePoint

namespace Text

def ofString (s : String) : Text :=
  s.toList.map Char.toNat

/-- The decimal numeral of `n`, without leading zeros. -/
def ofNat (n : Nat) : Text :=
  (Nat.toDigits 10 n).map Char.toNat

def ofInt (i : Int) : Text :=
  if i < 0 then 0x2D :: ofNat i.natAbs else ofNat i.natAbs

def isSurrogate (c : CodePoint) : Bool :=
  0xD800 ≤ c && c ≤ 0xDFFF

/-- The same text as a `String`, when no code point of it is a surrogate. -/
def toString? (t : Text) : Option String :=
  if t.any isSurrogate then none else some (String.ofList (t.map Char.ofNat))

/-- Puts `value` in every place marked `%s`. -/
def fill (value : Text) : Text → Text
  | 0x25 :: 0x73 :: rest => value ++ fill value rest
  | c :: rest => c :: fill value rest
  | [] => []

/-- Puts the values in the places marked `%s`, where a doubled percent sign stands for itself. There
have to be as many places as values. -/
def formatExactly? : List Text → Text → Option Text
  | values, 0x25 :: 0x25 :: rest => (formatExactly? values rest).map (0x25 :: ·)
  | value :: values, 0x25 :: 0x73 :: rest => (formatExactly? values rest).map (value ++ ·)
  | _, 0x25 :: _ => none
  | values, c :: rest => (formatExactly? values rest).map (c :: ·)
  | [], [] => some []
  | _ :: _, [] => none

/-- The UTF-16 form of one code point: itself, or a pair of surrogates. -/
def utf16 (c : CodePoint) : Text :=
  if c ≤ 0xFFFF then [c]
  else [(c - 0x10000) / 1024 + 0xD800, (c - 0x10000) % 1024 + 0xDC00]

end Text

namespace Source

def ofText (t : Text) : Source :=
  t.toArray

/-- The text from `start` up to `stop`, cut off at the end of the source. -/
def slice (src : Source) (start stop : Nat) : Text :=
  (src.extract start stop).toList

/-- A place given by an integer; a negative one counts from the end. -/
def place (src : Source) (index : Int) : Int :=
  if index < 0 then index + src.size else index

/-- The character at a place. -/
def characterAt? (src : Source) (index : Int) : Option CodePoint :=
  if src.place index < 0 then none else src[(src.place index).toNat]?

/-- The text between two places, either of which may lie outside the source. -/
def window (src : Source) (start stop : Int) : Text :=
  src.slice (src.place start).toNat (src.place stop).toNat

end Source

end EcmaScript
