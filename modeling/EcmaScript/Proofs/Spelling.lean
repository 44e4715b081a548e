import EcmaScript.Proofs.Lexing
import EcmaScript.Proofs.Printing
import Mathlib.Data.List.Find

/-!
What the scanner makes of a printed piece. A word, a string and a number are read to their ends, and
the longest mark is the one that was printed, since neither a blank nor a closing parenthesis goes on
with a piece.
-/

namespace EcmaScript

open Scan Character List StringElement

variable {src : Source} {index : Nat} {text rest : Text}

/-! ### Words -/

/-- What can stand right after a piece: a blank, a line feed, a quote, a parenthesis, a semicolon or a
brace. -/
def delimiters : Text :=
  [0x20, 0x0A, 0x22, 0x28, 0x29, 0x3B, 0x7B, 0x7D]

def isDelimiter (ch : CodePoint) : Bool :=
  delimiters.contains ch

variable {ch : CodePoint}

namespace Character

theorem isLetter_of_ascii (letter : isAsciiLetter ch = true) : inRanges ch letterRanges = true := by
  -- Only the first two of the many ranges matter.
  have table : letterRanges = (0x41, 0x5A) :: (0x61, 0x7A) :: letterRanges.drop 2 := rfl
  rw [table]
  simp only [isAsciiLetter, Bool.or_eq_true, Bool.and_eq_true, decide_eq_true_eq] at letter
  simp only [inRanges]
  grind

theorem isIdentifierStart_of_letter (letter : isAsciiLetter ch = true) : isIdentifierStart ch = true := by
  simp [isIdentifierStart, isLetter_of_ascii letter]

theorem isIdentifierPart_of_letter (letter : isAsciiLetter ch = true) : isIdentifierPart ch = true := by
  simp [isIdentifierPart, isLetter_of_ascii letter]

/-- A delimiter ends a word or a number. -/
theorem ends_of_delimiter (delimits : isDelimiter ch = true) :
    isIdentifierPart ch = false ∧ isIdentifierStart ch = false ∧ isHexDigit ch = false ∧
      isDecimalDigit ch = false ∧ ch ≠ 0x5C := by
  have all : ∀ ch ∈ delimiters, isIdentifierPart ch = false ∧
      isIdentifierStart ch = false ∧ isHexDigit ch = false ∧ isDecimalDigit ch = false ∧ ch ≠ 0x5C := by
    decide
  exact all ch (contains_iff_mem.mp delimits)

end Character

variable {c : Cursor} {fails : ScanFault → Cursor → Prop} {delimiter : CodePoint}
variable {returns : Token → Cursor → Prop}

/-! ### Strings -/

variable {lineStart : Option Nat}

namespace StringLiteral

theorem raw_text (text : Text) (c : Cursor) : StringElement.text (text.map .raw) = text ∧
    (text.map StringElement.raw).flatMap StringElement.value = text ∧
    (text.map StringElement.raw).any isOctal = false ∧
    (text.map StringElement.raw).countP isContinuation = 0 ∧
    (text.map StringElement.raw).foldl pass c = { c with index := c.index + text.length } := by
  induction text generalizing c with
  | nil => exact ⟨rfl, rfl, rfl, rfl, rfl⟩
  | cons ch text ih =>
    obtain ⟨spelling, value, octal, lines, moved⟩ := ih (pass c (.raw ch))
    simp only [map_cons, text_cons, flatMap_cons, any_cons, countP_cons,
      foldl_cons, spelling, value, octal, lines, moved]
    refine ⟨rfl, rfl, rfl, rfl, ?_⟩
    simp [StringElement.pass, isContinuation, StringElement.spelling]
    omega

theorem raw_spelled {quote : CodePoint} {text rest : Text}
    (plain : ∀ ch ∈ text, ch ≠ quote ∧ ch ≠ 0x5C ∧ isLineTerminator ch = false) :
    StringElement.Spelled quote (text.map .raw) rest := by
  induction text with
  | nil => trivial
  | cons ch text ih => exact ⟨plain ch (by simp), trivial, ih fun ch member => plain ch (by simp [member])⟩

theorem token_quoted (string : Quoted) (found : src.ahead c.index = string.written ++ rest) (met : returns
      { lexeme := .string string.text false
        raw := some string.written
        lineNumber := c.lineNumber
        lineStart
        start := c.index
        stop := c.index + string.written.length }
      { c with index := c.index + string.written.length }) :
    Meets (token src lineStart) c returns fails := by
  obtain ⟨spelling, value, octal, lines, moved⟩ := raw_text string.text { c with index := c.index + 1 }
  have read := token_reads (c := c) lineStart (.inr rfl) (raw_spelled string.plain)
    (show src.ahead c.index = 0x22 :: (_ ++ 0x22 :: rest) by simpa [spelling, Quoted.written] using found)
  have length : c.index + 1 + string.text.length + 1 = c.index + string.written.length := by
    simp [Quoted.written]
    omega
  unfold Meets
  rw [read]
  simp only [StringElement.token, close, spelling, value, octal, lines, moved, length]
  simpa [Quoted.written, Nat.add_assoc] using met

end StringLiteral

/-! ### Hexadecimal numbers -/

namespace HexDigit

theorem isHexDigit_code (digit : HexDigit) : isHexDigit digit.code = true := by
  obtain ⟨value, upper⟩ := digit
  revert value upper
  decide

theorem digitValue_code (digit : HexDigit) : digitValue digit.code = digit.value.val := by
  obtain ⟨value, upper⟩ := digit
  revert value upper
  decide

end HexDigit

theorem HexNumber.positional_eq (number : HexNumber) :
    positional 16 (number.digits.map HexDigit.code) = number.value := by
  rw [positional, HexNumber.value, foldl_map]
  simp only [HexDigit.digitValue_code, Nat.mul_comm]

namespace Numeric

theorem token_hexadecimal (number : HexNumber)
    (found : src.ahead c.index = number.written ++ delimiter :: rest)
    (delimits : isDelimiter delimiter = true) (met : returns
      { lexeme := .numeric (.integer number.value)
        raw := some number.written
        lineNumber := c.lineNumber
        lineStart := some c.lineStart
        start := c.index
        stop := c.index + number.written.length }
      { c with index := c.index + number.written.length }) : Meets (token src) c returns fails := by
  have ends := ends_of_delimiter delimits
  let n := Numeral.marked .hexadecimal (if number.upper then 0x58 else 0x78)
    (number.digits.map HexDigit.code)
  have valid : n.Valid := by
    refine ⟨by cases number.upper <;> decide, by simp [number.nonempty], fun ch member => ?_⟩
    obtain ⟨digit, -, rfl⟩ := mem_map.mp member
    exact digit.isHexDigit_code
  have followed : n.Followed delimiter := ⟨by simp [Numeral.isGlued, ends], nofun⟩
  have value : n.value = .integer number.value := congrArg Number.integer number.positional_eq
  have read := Numeral.token_reads (c := c) valid followed found
  unfold Meets
  rw [read, Numeral.token, value]
  exact met

end Numeric

/-! ### Marks -/

/-- Nothing of the text after a piece belongs to the piece. An opening parenthesis is no part of a
longer mark, whatever comes next. -/
def Piece.Delimited (piece : Piece) (rest : Text) : Prop :=
  piece = .mark .openParen ∨ ∃ delimiter more, rest = delimiter :: more ∧ isDelimiter delimiter = true

variable {mark : Punctuator}

namespace Punctuator

theorem mem_scanned (other : mark ≠ .ellipsis) : mark ∈ scanned := by
  cases mark <;> first | exact absurd rfl other | decide

/-- Every mark but the ellipsis is read off its own spelling. -/
theorem longest?_text (scans : mark ∈ scanned) : longest? mark.text = some mark := by
  have all : scanned.all fun mark => longest? mark.text = some mark := by decide
  simpa using all_eq_true.mp all mark scans

theorem length_text_le (scans : mark ∈ scanned) : mark.text.length ≤ 4 := by
  have all : scanned.all fun mark => mark.text.length ≤ 4 := by decide
  simpa using all_eq_true.mp all mark scans

theorem tail_text (scans : mark ∈ scanned) (member : ch ∈ mark.text.tail) : isDelimiter ch = false := by
  have all : scanned.all fun mark => mark.text.tail.all fun ch => !isDelimiter ch := by
    decide
  simpa using all_eq_true.mp (all_eq_true.mp all mark scans) ch member

theorem eq_openParen (scans : mark ∈ scanned) {more : Text}
    (starts : mark.text <+: 0x28 :: more) : mark = .openParen := by
  have all : scanned.all fun mark => mark = .openParen || mark.text.head? != some 0x28 := by
    decide
  have known := all_eq_true.mp all mark scans
  obtain ⟨first, others, spelled⟩ := exists_cons_of_ne_nil (Mark.text_ne_nil mark)
  rw [spelled] at starts
  obtain ⟨rfl, -⟩ := cons_prefix_cons.mp starts
  simpa [spelled] using known

theorem isPrefix_text {mark other : Punctuator} (scans : other ∈ scanned)
    (delimited : (Piece.mark mark).Delimited rest) (starts : other.text <+: mark.text ++ rest) :
    other.text <+: mark.text := by
  rcases delimited with isParen | ⟨delimiter, more, rfl, delimits⟩
  · cases isParen
    obtain rfl := eq_openParen scans (show other.text <+: 0x28 :: rest from starts)
    exact prefix_rfl
  · by_cases short : other.text.length ≤ mark.text.length
    · exact prefix_of_prefix_length_le starts (prefix_append ..) short
    · -- A longer mark would have the delimiter behind its first character.
      obtain ⟨left, whole⟩ := prefix_of_prefix_length_le (prefix_append ..) starts
        (Nat.le_of_not_le short)
      rw [← whole, prefix_append_right_inj] at starts
      cases left with
      | nil => simp [← whole] at short
      | cons ch left =>
        obtain ⟨rfl, -⟩ := cons_prefix_cons.mp starts
        have member : ch ∈ other.text.tail := by
          simp [← whole, tail_append_of_ne_nil (Mark.text_ne_nil mark)]
        rw [tail_text scans member] at delimits
        cases delimits

theorem longest?_take (scans : mark ∈ scanned) (delimited : (Piece.mark mark).Delimited rest) :
    longest? ((mark.text ++ rest).take 4) = some mark := by
  rw [← longest?_text scans]
  unfold longest?
  congr 1
  refine List.find?_congr fun entry member => ?_
  obtain ⟨other, scans', rfl⟩ := mem_map.mp member
  rw [Bool.eq_iff_iff, isPrefixOf_iff_prefix, isPrefixOf_iff_prefix, prefix_take_iff]
  constructor
  · rintro ⟨starts, -⟩
    exact isPrefix_text scans' delimited starts
  · intro starts
    exact ⟨starts.trans (prefix_append ..), length_text_le scans'⟩

end Punctuator

/-- The number of open braces after a piece, if the piece may stand where `depth` of them are open.
An ellipsis may stand nowhere, since its dots are read one by one. -/
def Piece.depthAfter? (depth : Nat) : Piece → Option Nat
  | .mark .openBrace => some (depth + 1)
  | .mark .closeBrace =>
    match depth with
    | 0 => none
    | outer + 1 => some outer
  | .mark .ellipsis => none
  | _ => some depth

variable {depth after : Nat}

namespace Mark

theorem token_mark
    (found : src.ahead c.index = mark.text ++ rest) (delimited : (Piece.mark mark).Delimited rest)
    (opened : c.braces = some (List.replicate depth .block))
    (legible : (Piece.mark mark).depthAfter? depth = some after) (met : returns
      { lexeme := .punctuator mark
        lineNumber := c.lineNumber
        lineStart := some c.lineStart
        start := c.index
        stop := c.index + mark.text.length }
      { c with
        index := c.index + mark.text.length
        braces := some (List.replicate after .block) }) : Meets (token src) c returns fails := by
  have scans : mark ∈ Punctuator.scanned :=
    Punctuator.mem_scanned (by rintro rfl; cases legible)
  have longest : Punctuator.longest? (src.slice c.index (c.index + 4)) = some mark := by
    rw [src.slice_ahead, found]
    exact Punctuator.longest?_take scans delimited
  obtain ⟨first, more, spelled⟩ := exists_cons_of_ne_nil (text_ne_nil mark)
  have head : src.ahead c.index = first :: (more ++ rest) := by rw [found, spelled]; rfl
  refine .get_bind (.into ?_)
  refine current_ahead head (.get_bind ?_)
  simp only [longest]
  split
  next none => cases none
  next isOpen =>
    cases isOpen
    cases legible
    refine .into (.get_bind ?_)
    simp only [opened, ← replicate_succ']
    exact met
  next isClose =>
    cases isClose
    cases depth with
    | zero => cases legible
    | succ depth =>
      cases legible
      refine .modify_bind (.into ?_)
      refine .get_bind ?_
      simp only [opened, replicate_succ]
      rw [Meets.modify_iff, ← replicate_succ, dropLast_replicate]
      exact met
  next other notOpen notClose same =>
    cases same
    have unchanged : after = depth := by
      cases mark
      case openBrace => exact absurd rfl notOpen
      case closeBrace => exact absurd rfl notClose
      case ellipsis => cases legible
      all_goals exact (Option.some.inj legible).symm
    rw [unchanged, ← opened] at met
    exact met

end Mark

/-! ### Pieces -/

namespace Piece

def lexeme : Piece → Lexeme
  | .mark punctuator => .punctuator punctuator
  | .quoted string => .string string.text false
  | .hexadecimal number => .numeric (.integer number.value)
  | piece => Lexeme.ofName piece.text

/-- The spelling that goes with a piece; a mark has none. -/
def raw : Piece → Option Text
  | .mark _ => none
  | piece => some piece.text

end Piece

def IsSpelledOut (text : Text) : Prop :=
  text ≠ [] ∧ ∀ ch ∈ text, isAsciiLetter ch = true

theorem Word.isSpelledOut (word : Word) : IsSpelledOut word.text :=
  ⟨word.nonempty, word.letters⟩

theorem Keyword.isSpelledOut (word : Keyword) : IsSpelledOut word.text := by
  cases word <;> exact ⟨by decide, by decide⟩

theorem Lexeme.booleanText_isSpelledOut (value : Bool) : IsSpelledOut (booleanText value) := by
  cases value <;> exact ⟨by decide, by decide⟩

theorem null_isSpelledOut : IsSpelledOut (Text.ofString "null") :=
  ⟨by decide, by decide⟩

namespace Lexer

theorem token_word {word : Text}
    (found : src.ahead c.index = word ++ delimiter :: rest) (nonempty : word ≠ [])
    (letters : ∀ ch ∈ word, isAsciiLetter ch = true) (delimits : isDelimiter delimiter = true)
    (met : ∀ token : Token, token.lexeme = Lexeme.ofName word → token.raw = some word →
      token.start = c.index → returns token { c with index := c.index + word.length }) :
    Meets (token src false lineStart) c returns fails := by
  have isName : Name.IsName word := by
    obtain ⟨first, more, rfl⟩ := exists_cons_of_ne_nil nonempty
    refine ⟨first, more, rfl, isIdentifierStart_of_letter (letters first mem_cons_self),
      fun ch member => isIdentifierPart_of_letter (letters ch (mem_cons_of_mem first member)), ?_⟩
    exact fun backslash => absurd (letters 0x5C backslash) (by decide)
  have spells : NamePart.Spells (word.map .plain) :=
    Name.spells_of_isName (by simpa using isName) (by simp [NamePart.Formed])
  have read := Name.token_reads (c := c) spells (Text.stops_cons (ends_of_delimiter delimits).1)
    (by simpa using found)
  have reads : Meets (Name.token src) c returns fails := by
    unfold Meets
    rw [read]
    simpa using met (NamePart.token (word.map .plain) c) (by simp [NamePart.token])
      (by simp [NamePart.token]) rfl
  obtain ⟨first, more, rfl, starts, -⟩ := isName
  refine atEnd_ahead found (current_ahead found ?_)
  rw [if_pos starts]
  exact .into reads

/-- The first character of a mark leads to the reader of marks. -/
theorem token_mark {strict : Bool} (found : src.ahead c.index = mark.text ++ rest)
    (delimited : (Piece.mark mark).Delimited rest) (opened : c.braces = some (List.replicate depth .block))
    (legible : (Piece.mark mark).depthAfter? depth = some after)
    (reads : Meets (Mark.token src) c returns fails) :
    Meets (token src strict lineStart) c returns fails := by
  have scans : mark ∈ Punctuator.scanned :=
    Punctuator.mem_scanned (by rintro rfl; cases legible)
  have table : Punctuator.scanned.all fun mark => mark.text.head?.all fun ch =>
      !isIdentifierStart ch && ch != 0x27 && ch != 0x22 && !isDecimalDigit ch && ch != 0x60 &&
        (ch != 0x2E || mark == .dot) && (ch != 0x7D || mark == .closeBrace) := by
    decide
  have starts := all_eq_true.mp table mark scans
  obtain ⟨first, more, spelled⟩ := exists_cons_of_ne_nil (Mark.text_ne_nil mark)
  have head : src.ahead c.index = first :: (more ++ rest) := by rw [found, spelled]; rfl
  simp [spelled] at starts
  obtain ⟨⟨⟨⟨⟨⟨notStart, notSingle⟩, notDouble⟩, notDigit⟩, notTick⟩, isDot⟩, isClose⟩ := starts
  refine atEnd_ahead head (current_ahead head ?_)
  rw [if_neg (by simp [notStart])]
  refine .ite (fun _ => reads) fun _ => ?_
  rw [if_neg (by simp [notSingle, notDouble])]
  refine .ite (fun atDot => ?_) fun _ => ?_
  · -- No digit stands behind a dot of its own.
    obtain rfl : mark = .dot := isDot.resolve_left (by simp [atDot])
    obtain isParen | ⟨delimiter, others, rfl, delimits⟩ := delimited
    · cases isParen
    · refine ahead_found (Source.getElem?_head (Source.ahead_append found)) ?_
      rw [if_neg (by simp [(ends_of_delimiter delimits).2.2.2.1])]
      exact reads
  · rw [if_neg (by simp [notDigit]), if_neg notTick]
    refine .ite (fun atClose => ?_) fun _ => reads
    obtain rfl : mark = .closeBrace := isClose.resolve_left (by simp [atClose])
    cases depth with
    | zero => cases legible
    | succ depth =>
      refine .into (.get_bind ?_)
      simp only [opened, List.getLast?_replicate]
      exact reads

/-- A piece is read back where something else stands after it, in strict code unless it is a word. -/
theorem token_piece {piece : Piece} (strict : Bool) (lineStart : Option Nat)
    (found : src.ahead c.index = piece.text ++ rest) (delimited : piece.Delimited rest)
    (opened : c.braces = some (List.replicate depth .block))
    (legible : piece.depthAfter? depth = some after) (loose : strict = true → ¬ IsSpelledOut piece.text) :
    Meets (token src strict lineStart) c (fun token d =>
      token.lexeme = piece.lexeme ∧ token.raw = piece.raw ∧ token.start = c.index ∧ d = { c with
          index := c.index + piece.text.length
          braces := some (List.replicate after .block) }) fails := by
  have word (letters : IsSpelledOut piece.text) (notParen : piece ≠ .mark .openParen)
      (named : piece.lexeme = Lexeme.ofName piece.text) (spelled : piece.raw = some piece.text)
      (same : some depth = some after) :
      Meets (token src strict lineStart) c (fun token d =>
        token.lexeme = piece.lexeme ∧ token.raw = piece.raw ∧ token.start = c.index ∧ d = { c with
            index := c.index + piece.text.length
            braces := some (List.replicate after .block) }) fails := by
    cases same
    obtain ⟨delimiter, more, rfl, delimits⟩ := delimited.resolve_left notParen
    obtain rfl : strict = false := Bool.eq_false_iff.mpr fun isStrict => loose isStrict letters
    rw [named, spelled, ← opened]
    refine token_word found letters.1 letters.2 delimits fun token lexeme raw start => ?_
    exact ⟨lexeme, raw, start, rfl⟩
  cases piece with
  | mark mark =>
    exact token_mark found delimited opened legible
      (Mark.token_mark found delimited opened legible ⟨rfl, rfl, rfl, rfl⟩)
  | quoted string =>
    cases legible
    have quote : src.ahead c.index = 0x22 :: (string.text ++ [0x22] ++ rest) := found
    refine atEnd_ahead quote (current_ahead quote ?_)
    rw [if_neg (by decide), if_neg (by decide), if_pos (by decide)]
    exact StringLiteral.token_quoted string found ⟨rfl, rfl, rfl, by rw [← opened]; rfl⟩
  | hexadecimal number =>
    cases legible
    obtain ⟨delimiter, more, rfl, delimits⟩ := delimited.resolve_left nofun
    have zero : src.ahead c.index = 0x30 :: (number.written.tail ++ delimiter :: more) := found
    refine atEnd_ahead zero (current_ahead zero ?_)
    rw [if_neg (by decide), if_neg (by decide), if_neg (by decide), if_neg (by decide),
      if_pos (by decide)]
    exact Numeric.token_hexadecimal number found delimits ⟨rfl, rfl, rfl, by rw [← opened]; rfl⟩
  | keyword reserved => exact word reserved.isSpelledOut nofun rfl rfl legible
  | word letters => exact word letters.isSpelledOut nofun rfl rfl legible
  | boolean value => exact word (Lexeme.booleanText_isSpelledOut value) nofun rfl rfl legible
  | null => exact word null_isSpelledOut nofun rfl rfl legible

end Lexer

end EcmaScript
