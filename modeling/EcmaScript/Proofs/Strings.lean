import EcmaScript.Proofs.Names

/-!
How strings are spelled. A string literal is a sequence of elements between quotes: characters that
stand for themselves, escapes, and line breaks behind a backslash, which stand for nothing. The scanner
takes the longest such sequence and puts the values of its elements together. It returns a token just
when the closing quote is behind them, and fails otherwise, so that nothing but these elements is ever
accepted behind a backslash.
-/

namespace EcmaScript

open Scan Character List Source

/-- An element of a string literal as it is written. -/
inductive StringElement where
  | raw (ch : CodePoint)
  | control (letter denoted : CodePoint)
  | hex (letter : CodePoint) (digits : Text)
  | braced (letter : CodePoint) (digits : Text)
  | octal (first : CodePoint) (more : Text)
  | other (ch : CodePoint)
  | continuation (terminator : Text)
  deriving DecidableEq, Repr

variable {elements : List StringElement}

namespace StringElement

def spelling : StringElement → Text
  | raw ch => [ch]
  | control letter _ => [0x5C, letter]
  | hex letter digits => 0x5C :: letter :: digits
  | braced letter digits => 0x5C :: letter :: 0x7B :: (digits ++ [0x7D])
  | octal first more => 0x5C :: first :: more
  | other ch => [0x5C, ch]
  | continuation terminator => 0x5C :: terminator

/-- The UTF-16 units of a code point. -/
def units (v : Nat) : Text :=
  if v ≤ 0xFFFF then [v] else [0xD800 + (v - 0x10000) >>> 10, 0xDC00 + ((v - 0x10000) &&& 1023)]

def value : StringElement → Text
  | raw ch | other ch => [ch]
  | control _ denoted => [denoted]
  | hex _ digits => [positional 16 digits]
  | braced _ digits => units (positional 16 digits)
  | octal first more => [positional 8 (first :: more)]
  | continuation _ => []

def isOctal : StringElement → Bool
  | octal first more => first ≠ 0x30 || !more.isEmpty
  | _ => false

def isContinuation : StringElement → Bool
  | continuation _ => true
  | _ => false

def controls : List (CodePoint × CodePoint) :=
  [(0x6E, 0x0A), (0x72, 0x0D), (0x74, 0x09), (0x62, 0x08), (0x66, 0x0C), (0x76, 0x0B)]

/-- How many digits an octal escape may have behind the first. -/
def room (first : CodePoint) : Nat :=
  if first ≤ 0x33 then 2 else 1

def Valid (quote : CodePoint) : StringElement → Prop
  | raw ch => ch ≠ quote ∧ ch ≠ 0x5C ∧ isLineTerminator ch = false
  | control letter denoted => (letter, denoted) ∈ controls
  | hex letter digits =>
    (letter, digits.length) ∈ [(0x75, 4), (0x78, 2)] ∧ ∀ ch ∈ digits, isHexDigit ch = true
  | braced letter digits => letter ∈ [0x75, 0x78] ∧ digits ≠ [] ∧
    (∀ ch ∈ digits, isHexDigit ch = true) ∧ positional 16 digits ≤ 0x10FFFF
  | octal first more => isOctalDigit first = true ∧ (∀ ch ∈ more, isOctalDigit ch = true) ∧
    more.length ≤ room first
  | other ch => ch ∉ [0x75, 0x78] ∧ isOctalDigit ch = false ∧ isLineTerminator ch = false ∧
    ch ∉ controls.map Prod.fst
  | continuation terminator => terminator ∈ [[0x0A], [0x0D], [0x0D, 0x0A], [0x2028], [0x2029]]

/-- The element is not followed by what would belong to it. Behind a carriage return the scanner looks
for a line feed, so there has to be something. -/
def Ends : StringElement → Text → Prop
  | octal first more, rest => more.length = room first ∨ Text.Stops isOctalDigit rest
  | continuation [0x0D], rest => ∃ ch more, rest = ch :: more ∧ ch ≠ 0x0A
  | _, _ => True

def text (elements : List StringElement) : Text :=
  elements.flatMap spelling

/-- The elements are well-formed, and each of them ends where the next one or the rest starts. -/
def Spelled (quote : CodePoint) : List StringElement → Text → Prop
  | [], _ => True
  | element :: elements, rest =>
    element.Valid quote ∧ element.Ends (text elements ++ rest) ∧ Spelled quote elements rest

/-- No element starts here. -/
def Halts (quote : CodePoint) (left : Text) : Prop :=
  ∀ (element : StringElement) rest, left = element.spelling ++ rest → element.Ends rest → ¬ element.Valid quote

def pass (c : Cursor) (element : StringElement) : Cursor :=
  let d := { c with index := c.index + element.spelling.length }
  if element.isContinuation then { d with lineNumber := c.lineNumber + 1, lineStart := d.index } else d

def close (c : Cursor) (elements : List StringElement) : Cursor :=
  let d := elements.foldl pass { c with index := c.index + 1 }
  { d with index := d.index + 1 }

def token (quote : CodePoint) (elements : List StringElement) (lineStart : Option Nat) (c : Cursor) :
    Token where
  lexeme := .string (elements.flatMap value) (elements.any isOctal)
  raw := some (quote :: (text elements ++ [quote]))
  lineNumber := c.lineNumber + elements.countP isContinuation
  lineStart
  start := c.index
  stop := c.index + (text elements).length + 2

@[simp]
theorem text_nil : text [] = [] :=
  rfl

@[simp]
theorem text_cons (element : StringElement) (elements : List StringElement) :
    text (element :: elements) = element.spelling ++ text elements :=
  rfl

/-- Whether anything but a character as it is comes with a backslash. -/
theorem raw_or_escape (element : StringElement) :
    (∃ ch, element = raw ch) ∨ ∃ more, element.spelling = 0x5C :: more := by
  cases element with
  | raw ch => exact .inl ⟨ch, rfl⟩
  | _ => exact .inr ⟨_, rfl⟩

theorem pass_index (c : Cursor) (element : StringElement) :
    (pass c element).index = c.index + element.spelling.length := by
  unfold pass
  split <;> rfl

theorem foldl_pass (elements : List StringElement) (c : Cursor) :
    (elements.foldl pass c).index = c.index + (text elements).length ∧
    (elements.foldl pass c).lineNumber = c.lineNumber + elements.countP isContinuation ∧
    (elements.foldl pass c).braces = c.braces := by
  induction elements generalizing c with
  | nil => exact ⟨rfl, rfl, rfl⟩
  | cons element elements ih =>
    obtain ⟨index, lineNumber, braces⟩ := ih (pass c element)
    rw [foldl_cons, index, lineNumber, braces, pass_index, countP_cons, text_cons,
      length_append, Nat.add_assoc]
    refine ⟨rfl, ?_, ?_⟩
    · unfold pass
      split
      · simp only
        omega
      · simp
    · unfold pass
      split <;> rfl

variable {quote : CodePoint} {rest left : Text}

theorem spelling_ne_nil (element : StringElement) : element.spelling ≠ [] := by
  cases element <;> exact nofun

/-- Every text starts with elements, up to where no element starts. -/
theorem exists_elements (quote : CodePoint) (left : Text) :
    ∃ elements rest, left = text elements ++ rest ∧ Spelled quote elements rest ∧ Halts quote rest := by
  induction size : left.length using Nat.strongRecOn generalizing left with
  | ind size ih =>
    subst size
    by_cases halts : Halts quote left
    · exact ⟨[], left, rfl, trivial, halts⟩
    simp only [Halts, Classical.not_forall, Classical.not_not] at halts
    obtain ⟨element, behind, rfl, ends, valid⟩ := halts
    have shorter := length_pos_iff.mpr element.spelling_ne_nil
    obtain ⟨elements, rest, rfl, spelled, halts⟩ := ih behind.length (by simpa using shorter) behind rfl
    exact ⟨element :: elements, rest, by simp, ⟨valid, ends, spelled⟩, halts⟩

theorem halts_quote (notBackslash : quote ≠ 0x5C) : Halts quote (quote :: rest) := by
  intro element more same _ valid
  rcases element.raw_or_escape with ⟨ch, rfl⟩ | ⟨escape, starts⟩
  · exact valid.1 (List.cons.inj same).1.symm
  · rw [starts] at same
    exact notBackslash (List.cons.inj same).1

theorem close_eq (c : Cursor) (elements : List StringElement) :
    (close c elements).index = c.index + (text elements).length + 2 ∧
    (close c elements).lineNumber = c.lineNumber + elements.countP isContinuation ∧
    (close c elements).braces = c.braces := by
  obtain ⟨index, lineNumber, braces⟩ := foldl_pass elements { c with index := c.index + 1 }
  refine ⟨?_, lineNumber, braces⟩
  simp only [close, index]
  omega

theorem Ends.congr {element : StringElement} {rest' : Text} (ends : element.Ends rest)
    (same : rest.head? = rest'.head?) : element.Ends rest' := by
  unfold Ends at ends ⊢
  split
  · refine ends.imp_right fun stops ch more starts => ?_
    rw [starts, List.head?_cons] at same
    obtain ⟨more', rfl⟩ := List.head?_eq_some_iff.mp same
    exact stops ch more' rfl
  · obtain ⟨ch, more, rfl, other⟩ := ends
    obtain ⟨more', rfl⟩ := List.head?_eq_some_iff.mp same.symm
    exact ⟨ch, more', rfl, other⟩
  · trivial

theorem Spelled.congr {rest' : Text}
    (spelled : Spelled quote elements rest) (same : rest.head? = rest'.head?) :
    Spelled quote elements rest' := by
  induction elements with
  | nil => trivial
  | cons element elements ih =>
    obtain ⟨valid, ends, spelled⟩ := spelled
    exact ⟨valid, ends.congr (by rw [List.head?_append, List.head?_append, same]), ih spelled⟩

theorem units_eq_utf16 (v : Nat) : units v = Text.utf16 v := by
  have mask := Nat.and_two_pow_sub_one_eq_mod (v - 0x10000) 10
  rw [units, Text.utf16, Nat.shiftRight_eq_div_pow, mask, Nat.add_comm 0xD800, Nat.add_comm 0xDC00]

theorem mem_controls (letter denoted : CodePoint) :
    (letter, denoted) ∈ controls ↔ StringLiteral.control? letter = some denoted := by
  simp only [controls, StringLiteral.control?, mem_cons, Prod.mk.injEq, not_mem_nil, or_false]
  grind

end StringElement

open StringElement

/-! ### The escapes of a string -/

variable {src : Source} {c d : Cursor} {ch quote : CodePoint} {text rest left digits : Text}
variable {α : Type} {fails : ScanFault → Cursor → Prop}

namespace Escape

theorem bracedDigits_meets {returns : Option Nat → Cursor → Prop} (bound : c.index ≤ src.size)
    (all : ∀ ch ∈ digits, isHexDigit ch = true) (stops : Text.Stops isHexDigit rest)
    (took : c.Took src text (digits ++ rest) d)
    (met : ∀ e, c.Took src (text ++ digits ++ rest.take 1) (rest.drop 1) e →
      returns (if rest.head? = some 0x7D then some (positional 16 digits) else none) e) :
    Meets (bracedDigits src) d returns fails := by
  refine repeated_meets (fun value e => ∃ before after, digits = before ++ after ∧
    value = positional 16 before ∧ c.Took src (text ++ before) (after ++ rest) e)
    (fun _ _ holds => ?_) ?_ ⟨[], digits, rfl, rfl, by simpa using took⟩
  · obtain ⟨_, _, -, -, took⟩ := holds
    exact (took.reaches bound).bound
  rintro _ e ⟨before, after, rfl, rfl, took⟩
  cases after with
  | nil =>
    simp only [append_nil] at met
    cases rest with
    | nil =>
      refine atEnd_ite (fun _ => met e (by simpa using took)) fun inside => ?_
      have length := src.length_ahead e.index
      rw [took.ahead] at length
      simp at length
      omega
    | cons ch rest =>
      have outside := stops ch rest rfl
      refine atEnd_ahead took.ahead (next_ahead took.ahead ?_)
      simp only [outside]
      have last := met _ (by simpa using took.skip)
      simpa using last
  | cons digit after =>
    refine atEnd_ahead took.ahead (next_ahead took.ahead ?_)
    rw [if_pos (all digit (by simp))]
    refine ⟨⟨before ++ [digit], after, by simp, by simp [positional], ?_⟩, Nat.lt_succ_self _⟩
    simpa using took.skip

theorem octalDigit?_some {f : Option Nat → ScanM α} {returns : α → Cursor → Prop}
    (isDigit : isOctalDigit ch = true) (took : c.Took src text (ch :: rest) d)
    (met : Meets (f (some (digitValue ch))) { d with index := d.index + 1 } returns fails) :
    Meets (octalDigit? src >>= f) d returns fails := by
  refine .into (.get_bind ?_)
  rw [took.lookup]
  simp only [List.head?_cons, isDigit, if_true]
  exact met

theorem octalDigit?_none {f : Option Nat → ScanM α} {returns : α → Cursor → Prop}
    (stops : Text.Stops isOctalDigit rest) (took : c.Took src text rest d)
    (met : Meets (f none) d returns fails) : Meets (octalDigit? src >>= f) d returns fails := by
  refine .into (.get_bind ?_)
  rw [took.lookup]
  cases rest with
  | nil => exact met
  | cons ch rest =>
    simp only [List.head?_cons, stops ch rest rfl]
    exact met

theorem octal_meets {more : Text} {returns : CodePoint × Bool → Cursor → Prop}
    (valid : (StringElement.octal ch more).Valid quote) (ends : (StringElement.octal ch more).Ends rest)
    (took : c.Took src text (more ++ rest) d) (met : ∀ e, c.Took src (text ++ more) rest e →
      returns (positional 8 (ch :: more), (StringElement.octal ch more).isOctal) e) :
    Meets (octal src ch) d returns fails := by
  obtain ⟨isDigit, all, few⟩ := valid
  unfold octal
  rw [if_pos isDigit]
  match more with
  | [] =>
    have stops : Text.Stops isOctalDigit rest := ends.resolve_left (by rw [room]; split <;> simp)
    refine octalDigit?_none stops took ?_
    simpa [positional, isOctal] using met d (by simpa using took)
  | [second] =>
    refine octalDigit?_some (all second (by simp)) took ?_
    have answer := met _ took.skip
    refine .ite (fun small => ?_) fun _ => by simpa [positional, isOctal] using answer
    have stops : Text.Stops isOctalDigit rest := ends.resolve_left (by simp [room, small])
    exact octalDigit?_none stops took.skip (by simpa [positional, isOctal] using answer)
  | second :: third :: fourth =>
    have small : ch ≤ 0x33 := by
      refine Nat.le_of_not_lt fun large => ?_
      simp [room, Nat.not_le.mpr large] at few
    obtain rfl : fourth = [] := length_eq_zero_iff.mp (by simpa [room, small] using few)
    refine octalDigit?_some (all second (by simp)) took ?_
    dsimp only
    rw [if_pos small]
    refine octalDigit?_some (all third (by simp)) took.skip ?_
    simpa [positional, isOctal] using met _ (by simpa using took.skip.skip)

end Escape

namespace StringLiteral

/-- Where a source that ends within an escape is cut off. -/
def Cut (left : Text) : Prop :=
  left ∈ [[0x5C], [0x5C, 0x0D], [0x5C, 0x75], [0x5C, 0x78], [0x5C, 0x75, 0x7B], [0x5C, 0x78, 0x7B]]

/-- The scanner has failed behind the elements before `c`: the rest goes on with no element, or the source
ends within one. -/
def Refused (src : Source) (c : Cursor) (left : Text) (fault : ScanFault) (d : Cursor) : Prop :=
  fault = .illegal ∧ (∃ j, c.index ≤ j ∧ d = { c with index := j }) ∨
    fault = .pastEnd ∧ Cut left ∧ src.ahead d.index = []

theorem digit_isOther (isDigit : isOctalDigit ch = true) : isLineTerminator ch = false ∧
    (decide (ch = 0x75) || decide (ch = 0x78)) = false ∧ control? ch = none := by
  have all : ∀ ch < 0x38, isOctalDigit ch = true → isLineTerminator ch = false ∧
      (decide (ch = 0x75) || decide (ch = 0x78)) = false ∧ control? ch = none := by decide
  have range : 0x30 ≤ ch ∧ ch ≤ 0x37 := by simpa [isOctalDigit] using isDigit
  exact all ch (Nat.lt_succ_of_le range.2) isDigit

theorem hex_ne_brace (isHex : isHexDigit ch = true) : ch ≠ 0x7B ∧ ch ≠ 0x7D := by
  constructor <;> (rintro rfl; exact absurd isHex (by decide))

/-- An escape is read behind its backslash. -/
theorem escape_reads {element : StringElement} {returns : Text × Bool → Cursor → Prop}
    (valid : element.Valid quote) (ends : element.Ends rest)
    (isEscape : ∃ more, element.spelling = 0x5C :: more)
    (found : src.ahead c.index = element.spelling ++ rest)
    (met : returns (element.value, element.isOctal) (pass c element)) :
    Meets (escape src) { c with index := c.index + 1 } returns fails := by
  have start : c.Took src [] (element.spelling ++ rest) c := found ▸ .start
  have answer {d : Cursor} (took : c.Took src element.spelling rest d)
      (inLine : element.isContinuation = false) : returns (element.value, element.isOctal) d := by
    simpa [StringElement.pass, inLine, ← took.cursor] using met
  cases element with
  | raw ch =>
    obtain ⟨more, starts⟩ := isEscape
    exact absurd (List.cons.inj starts).1 valid.2.1
  | control letter denoted =>
    have facts : ∀ pair ∈ controls, isLineTerminator pair.1 = false ∧
        (decide (pair.1 = 0x75) || decide (pair.1 = 0x78)) = false := by decide
    obtain ⟨inLine, noHex⟩ := facts _ valid
    refine next_ahead start.skip.ahead ?_
    simp only [inLine, noHex, (mem_controls letter denoted).mp valid]
    exact answer start.skip.skip rfl
  | hex letter digits =>
    obtain ⟨sized, all⟩ := valid
    have facts : ∀ pair ∈ [(0x75, 4), (0x78, 2)], isLineTerminator pair.1 = false ∧
        (decide (pair.1 = 0x75) || decide (pair.1 = 0x78)) = true ∧ Escape.width pair.1 = pair.2 ∧
        pair.2 ≠ 0 := by decide
    obtain ⟨inLine, isHex, width, positive⟩ := facts _ sized
    have took := start.skip.skip
    refine next_ahead start.skip.ahead ?_
    simp only [inLine, isHex, width]
    cases digits with
    | nil => exact absurd rfl positive
    | cons digit digits =>
      refine took.current ?_
      rw [if_neg (hex_ne_brace (all digit (by simp))).1]
      refine .into (Escape.hexDigits_meets all (.inl rfl) took fun e took' => ?_)
      rw [if_pos rfl]
      exact answer took' rfl
  | braced letter digits =>
    obtain ⟨isLetter, some, all, small⟩ := valid
    have facts : ∀ letter ∈ [0x75, 0x78], isLineTerminator letter = false ∧
        (decide (letter = 0x75) || decide (letter = 0x78)) = true := by decide
    obtain ⟨inLine, isHex⟩ := facts _ isLetter
    have start : c.Took src [] (0x5C :: letter :: 0x7B :: (digits ++ 0x7D :: rest)) c := by
      simpa [spelling] using start
    have took := start.skip.skip.skip
    have bound := Nat.le_of_lt (lt_size_of_ahead start.ahead)
    refine next_ahead start.skip.ahead ?_
    simp only [inLine, isHex]
    refine start.skip.skip.current ?_
    rw [if_pos rfl]
    refine .modify_bind (.into ?_)
    obtain ⟨digit, others, rfl⟩ := exists_cons_of_ne_nil some
    refine took.current ?_
    rw [if_neg (hex_ne_brace (all digit (by simp))).2]
    refine .into (Escape.bracedDigits_meets bound all (Text.stops_cons (by decide)) took ?_)
    intro e took'
    simp only [List.head?_cons, if_true, small]
    have read := answer (d := e) (by simpa [spelling] using took') rfl
    rw [value, units_eq_utf16] at read
    exact read
  | octal first more =>
    obtain ⟨inLine, noHex, noControl⟩ := digit_isOther valid.1
    refine next_ahead start.skip.ahead ?_
    simp only [inLine, noHex, noControl, valid.1]
    exact .into (Escape.octal_meets valid ends start.skip.skip fun e took => answer took rfl)
  | other ch =>
    obtain ⟨noLetter, noOctal, inLine, noControl⟩ := valid
    have none : control? ch = none := by
      refine Option.eq_none_iff_forall_ne_some.mpr fun denoted isControl => noControl ?_
      exact mem_map_of_mem (f := Prod.fst) ((mem_controls ch denoted).mpr isControl)
    refine next_ahead start.skip.ahead ?_
    have noHex : (decide (ch = 0x75) || decide (ch = 0x78)) = false := by simpa using noLetter
    simp only [inLine, noHex, none, noOctal]
    exact answer start.skip.skip rfl
  | continuation terminator =>
    have valid : terminator ∈ [[0x0A], [0x0D], [0x0D, 0x0A], [0x2028], [0x2029]] := valid
    simp only [mem_cons, not_mem_nil, or_false] at valid
    rcases valid with rfl | rfl | rfl | rfl | rfl <;> refine next_ahead start.skip.ahead ?_ <;>
      rw [if_pos (by decide)] <;> refine .into (.modify_bind (.into ?_))
    · exact met
    · obtain ⟨ch, more, rfl, noFeed⟩ := ends
      refine current_ahead start.skip.skip.ahead ?_
      rw [if_neg noFeed]
      exact met
    · exact current_ahead start.skip.skip.ahead met
    · exact met
    · exact met

theorem escape_fails {returns : Text × Bool → Cursor → Prop} (halts : Halts quote (0x5C :: left))
    (found : src.ahead c.index = 0x5C :: left) :
    Meets (escape src) { c with index := c.index + 1 } returns (Refused src c (0x5C :: left)) := by
  have start : c.Took src [] (0x5C :: left) c := found ▸ .start
  have illegal {text rest : Text} {d : Cursor} (took : c.Took src text rest d) :
      Refused src c (0x5C :: left) .illegal d :=
    .inl ⟨rfl, _, Nat.le_add_right .., took.cursor⟩
  cases left with
  | nil => exact .into (start.skip.missing (.inr ⟨rfl, by simp [Cut], start.skip.ahead⟩))
  | cons ch left =>
  have took := start.skip.skip
  refine next_ahead start.skip.ahead (.ite (fun isBreak => ?_) fun inLine => ?_)
  · have isBreak : ch = 0x0A ∨ ch = 0x0D ∨ ch = 0x2028 ∨ ch = 0x2029 := by
      simpa [isLineTerminator, lineTerminators] using isBreak
    by_cases isReturn : ch = 0x0D
    · subst isReturn
      refine .into (.modify_bind (.into ?_))
      cases left with
      | nil =>
        have counted : Cursor.Took src { c with lineNumber := c.lineNumber + 1 } [0x5C, 0x0D] []
            { c with lineNumber := c.lineNumber + 1, index := c.index + 1 + 1 } := ⟨rfl, found⟩
        exact counted.missing (.inr ⟨rfl, by simp [Cut], took.ahead⟩)
      | cons next left =>
        refine (halts (.continuation [0x0D]) _ rfl ⟨next, left, rfl, ?_⟩ (by simp [Valid])).elim
        rintro rfl
        exact halts (.continuation [0x0D, 0x0A]) _ rfl trivial (by simp [Valid])
    · refine (halts (.continuation [ch]) _ rfl ?_ ?_).elim
      · simp [Ends, isReturn]
      · simpa [Valid] using isBreak
  have inLine : isLineTerminator ch = false := by simpa using inLine
  refine .ite (fun isHex => ?_) fun noHex => ?_
  · have isLetter : ch = 0x75 ∨ ch = 0x78 := by simpa using isHex
    cases left with
    | nil => exact took.missing (.inr ⟨rfl, by rcases isLetter with rfl | rfl <;> simp [Cut], took.ahead⟩)
    | cons next left =>
      refine took.current (.ite (fun isBrace => .modify_bind (.into ?_)) fun noBrace => ?_)
      · subst isBrace
        have took := took.skip
        cases left with
        | nil => exact took.missing (.inr ⟨rfl, by rcases isLetter with rfl | rfl <;> simp [Cut], took.ahead⟩)
        | cons digit left =>
          refine took.current (.ite (fun _ => illegal took) fun notClosed => ?_)
          obtain ⟨digits, rest, spelled, all, stops⟩ := Text.exists_span isHexDigit (digit :: left)
          rw [spelled] at took
          have bound := Nat.le_of_lt (lt_size_of_ahead found)
          refine .into (Escape.bracedDigits_meets bound all stops took fun e took' => ?_)
          split
          next value isValue =>
            obtain ⟨closed, rfl⟩ : rest.head? = some 0x7D ∧ positional 16 digits = value := by
              simpa using isValue
            obtain ⟨more, rfl⟩ := List.head?_eq_some_iff.mp closed
            refine .ite (fun small => ?_) fun _ => illegal took'
            refine (halts (.braced ch digits) more (by simp [spelling, spelled]) trivial
              ⟨by simpa using isLetter, fun isNil => ?_, all, small⟩).elim
            rw [isNil] at spelled
            exact notClosed (List.cons.inj spelled).1
          next => exact illegal took'
      · obtain ⟨digits, rest, spelled, all, ended⟩ :=
          Text.exists_digits isHexDigit (Escape.width ch) (next :: left)
        rw [spelled] at took
        refine .into (Escape.hexDigits_meets all ended took fun e took' => ?_)
        split
        next value isValue =>
          have full : digits.length = Escape.width ch := (Option.ite_none_right_eq_some.mp isValue).1
          refine (halts (.hex ch digits) rest (by simp [spelling, spelled]) trivial ⟨?_, all⟩).elim
          rcases isLetter with rfl | rfl <;> simp [full, Escape.width]
        next => exact illegal took'
  · split
    next denoted isControl =>
      exact (halts (.control ch denoted) left rfl trivial ((mem_controls ch denoted).mpr isControl)).elim
    next noControl =>
      refine .ite (fun isOctal => ?_) fun noOctal => ?_
      · obtain ⟨more, rest, spelled, all, ended⟩ := Text.exists_digits isOctalDigit (room ch) left
        refine (halts (.octal ch more) rest (by simp [spelling, spelled])
          (ended.imp_right And.right) ⟨isOctal, all, ?_⟩).elim
        exact ended.elim Nat.le_of_eq fun fewer => Nat.le_of_lt fewer.1
      · refine (halts (.other ch) left rfl trivial
          ⟨by simpa using noHex, by simpa using noOctal, inLine, fun isControl => ?_⟩).elim
        obtain ⟨⟨_, denoted⟩, member, rfl⟩ := mem_map.mp isControl
        rw [(mem_controls _ denoted).mp member] at noControl
        cases noControl

/-! ### The body of a string -/

theorem body_meets (notBackslash : quote ≠ 0x5C)
    (spelled : Spelled quote elements rest) (halts : Halts quote rest)
    (found : src.ahead c.index = StringElement.text elements ++ rest) (behind : c.index ≤ src.size) :
    Meets (body src quote) c (fun answer d => (∃ more, rest = quote :: more) ∧
      answer = (elements.flatMap value, elements.any isOctal) ∧
      d = { elements.foldl pass c with index := (elements.foldl pass c).index + 1 })
      (fun fault d => (∀ more, rest ≠ quote :: more) ∧ Refused src (elements.foldl pass c) rest fault d) := by
  refine repeated_meets (fun (state : Text × Bool) d => ∃ before after, elements = before ++ after ∧
    state = (before.flatMap value, before.any isOctal) ∧ d = before.foldl pass c ∧
    Spelled quote after rest ∧ src.ahead d.index = StringElement.text after ++ rest ∧ d.index ≤ src.size)
    (fun _ _ holds => ?_) ?_ ⟨[], elements, rfl, rfl, rfl, spelled, found, behind⟩
  · obtain ⟨_, _, -, -, -, -, -, bound⟩ := holds
    exact bound
  rintro _ _ ⟨before, after, rfl, rfl, rfl, spelled, found, bound⟩
  cases after with
  | nil =>
    rw [append_nil]
    refine atEnd_ite (fun ended => ⟨fun more isNext => ?_, .inl ⟨rfl, _, Nat.le_refl _, rfl⟩⟩) fun inside => ?_
    · subst isNext
      exact absurd (lt_size_of_ahead found) (Nat.not_lt.mpr ended)
    obtain ⟨ch, more, ahead⟩ := exists_ahead inside
    obtain rfl : rest = ch :: more := found.symm.trans ahead
    refine next_ahead ahead (.ite (fun isQuote => ?_) fun notQuote => ?_)
    · exact ⟨⟨more, by rw [isQuote]⟩, rfl, rfl⟩
    refine .ite (fun isBackslash => ?_) fun notBackslash => .ite (fun _ => ?_) fun inLine => ?_
    · subst isBackslash
      refine .into ((escape_fails halts ahead).mono (fun _ _ never => never) ?_)
      exact fun fault d refused => ⟨fun _ same => notQuote (List.cons.inj same).1, refused⟩
    · exact ⟨fun _ same => notQuote (List.cons.inj same).1, .inl ⟨rfl, _, Nat.le_succ _, rfl⟩⟩
    · exact (halts (.raw ch) more rfl trivial ⟨notQuote, notBackslash, by simpa using inLine⟩).elim
  | cons element after =>
    obtain ⟨valid, ends, spelled⟩ := spelled
    rw [text_cons, append_assoc] at found
    have nonempty := length_pos_iff.mpr element.spelling_ne_nil
    have onward : (∃ before' after', before ++ element :: after = before' ++ after' ∧
        (before.flatMap value ++ element.value, element.isOctal || before.any isOctal) =
          (before'.flatMap value, before'.any isOctal) ∧
        pass (before.foldl pass c) element = before'.foldl pass c ∧ Spelled quote after' rest ∧
        src.ahead (pass (before.foldl pass c) element).index = StringElement.text after' ++ rest ∧
        (pass (before.foldl pass c) element).index ≤ src.size) ∧
        (before.foldl pass c).index < (pass (before.foldl pass c) element).index := by
      refine ⟨⟨before ++ [element], after, by simp, by simp [Bool.or_comm], by simp, spelled, ?_, ?_⟩, ?_⟩
      · rw [pass_index, ahead_append found]
      · have length := src.length_ahead (before.foldl pass c).index
        rw [found, length_append] at length
        rw [pass_index]
        omega
      · rw [pass_index]
        omega
    rcases element.raw_or_escape with ⟨ch, rfl⟩ | ⟨more, starts⟩
    · obtain ⟨notQuote, notBackslash', inLine⟩ := valid
      refine atEnd_ahead found (next_ahead found ?_)
      rw [if_neg notQuote, if_neg notBackslash', if_neg (by simp [inLine])]
      simpa [value, isOctal, StringElement.pass, isContinuation, spelling] using onward
    · have ahead := found
      rw [starts, cons_append] at ahead
      refine atEnd_ahead ahead (next_ahead ahead ?_)
      rw [if_neg notBackslash.symm, if_pos rfl]
      refine .into (escape_reads valid ends ⟨more, starts⟩ found onward)

theorem token_meets (lineStart : Option Nat)
    (isQuote : quote = 0x27 ∨ quote = 0x22) (spelled : Spelled quote elements rest)
    (halts : Halts quote rest)
    (found : src.ahead c.index = quote :: (StringElement.text elements ++ rest)) :
    Meets (token src lineStart) c (fun token d => (∃ more, rest = quote :: more) ∧
      token = StringElement.token quote elements lineStart c ∧ d = close c elements)
      (fun fault d => (∀ more, rest ≠ quote :: more) ∧
        Refused src (elements.foldl pass { c with index := c.index + 1 }) rest fault d) := by
  have notBackslash : quote ≠ 0x5C := by rcases isQuote with rfl | rfl <;> decide
  refine .get_bind (current_ahead found ?_)
  rw [if_pos (by simpa using isQuote)]
  refine .modify_bind (.into ?_)
  refine (body_meets notBackslash spelled halts (ahead_cons found)
    (Nat.succ_le_of_lt (lt_size_of_ahead found))).imp ?_
  rintro _ _ ⟨⟨more, rfl⟩, rfl, rfl⟩
  refine .get_bind ⟨⟨more, rfl⟩, ?_, rfl⟩
  obtain ⟨stop, lineNumber, -⟩ := close_eq c elements
  have slice : src.slice c.index (c.index + (quote :: (StringElement.text elements ++ [quote])).length) =
      quote :: (StringElement.text elements ++ [quote]) :=
    slice_append (show _ = _ ++ more by simpa using found)
  simp only [length_cons, length_append, length_nil] at slice
  simp only [StringElement.token, ← stop, ← lineNumber, Token.mk.injEq, true_and, and_true]
  refine ⟨?_, rfl, rfl⟩
  rw [← slice]
  congr 2

theorem token_reads (lineStart : Option Nat)
    (isQuote : quote = 0x27 ∨ quote = 0x22) (spelled : Spelled quote elements (quote :: rest))
    (found : src.ahead c.index = quote :: (StringElement.text elements ++ quote :: rest)) :
    token src lineStart c = .ok (StringElement.token quote elements lineStart c) (close c elements) := by
  have notBackslash : quote ≠ 0x5C := by rcases isQuote with rfl | rfl <;> decide
  have met := token_meets lineStart isQuote spelled (halts_quote notBackslash) found
  cases run : token src lineStart c with
  | ok token d =>
    obtain ⟨-, rfl, rfl⟩ := met.of_ok run
    rfl
  | error fault d => exact absurd rfl ((met.of_error run).1 rest)

theorem token_decides (lineStart : Option Nat) (isQuote : quote = 0x27 ∨ quote = 0x22)
    (found : src[c.index]? = some quote) : ∃ elements rest, Spelled quote elements rest ∧
      src.ahead c.index = quote :: (StringElement.text elements ++ rest) ∧
      Meets (token src lineStart) c (fun token d => (∃ more, rest = quote :: more) ∧
        token = StringElement.token quote elements lineStart c ∧ d = close c elements)
        (Refused src (elements.foldl pass { c with index := c.index + 1 }) rest) := by
  have ahead := ahead_of_found found
  obtain ⟨elements, rest, same, spelled, halts⟩ := exists_elements quote (src.ahead (c.index + 1))
  rw [same] at ahead
  refine ⟨elements, rest, spelled, ahead, ?_⟩
  exact (token_meets lineStart isQuote spelled halts ahead).mono (fun _ _ met => met) fun _ _ met => met.2

theorem token_returns (lineStart : Option Nat) : Meets (token src lineStart) c
    (fun token d => ∃ quote elements rest, (quote = 0x27 ∨ quote = 0x22) ∧
      Spelled quote elements (quote :: rest) ∧
      src.ahead c.index = quote :: (StringElement.text elements ++ quote :: rest) ∧
      token = StringElement.token quote elements lineStart c ∧ d = close c elements) anyFault := by
  by_cases starts : ∃ quote, (quote = 0x27 ∨ quote = 0x22) ∧ src[c.index]? = some quote
  · obtain ⟨quote, isQuote, found⟩ := starts
    obtain ⟨elements, rest, spelled, ahead, met⟩ := token_decides lineStart isQuote found
    refine met.mono ?_ fun _ _ _ => trivial
    rintro _ _ ⟨⟨more, rfl⟩, isToken, isEnd⟩
    exact ⟨quote, elements, more, isQuote, spelled, ahead, isToken, isEnd⟩
  · refine .get_bind ((ahead_returns 0).bind fun quote d seen => ?_)
    obtain ⟨rfl, found⟩ := seen
    exact .ite (fun isQuote => absurd ⟨quote, by simpa using isQuote, found⟩ starts) fun _ => trivial

/-- Whatever the elements of a string are and however they are spelled, the token ends behind the closing
quote, its text is made of their values, and it is noted as octal just when one of them is. -/
theorem token_decodes (elements : List StringElement) (quote : CodePoint) (rest : Text)
    (lineStart : Option Nat) (src : Source) (c : Cursor) (isQuote : quote = 0x27 ∨ quote = 0x22)
    (spelled : Spelled quote elements (quote :: rest))
    (found : src.ahead c.index = quote :: (StringElement.text elements ++ quote :: rest)) :
    token src lineStart c = .ok
      { lexeme := .string (elements.flatMap value) (elements.any isOctal)
        raw := some (quote :: (StringElement.text elements ++ [quote]))
        lineNumber := c.lineNumber + elements.countP isContinuation
        lineStart
        start := c.index
        stop := c.index + (StringElement.text elements).length + 2 }
      (close c elements) :=
  token_reads lineStart isQuote spelled found

/-- A code point beyond the first plane gives two units, and a continued line none. -/
theorem token_decodes_pair :
    token (Source.ofText (Text.ofString "'\\u\x7b1F600\x7d\\\r\n\\12'")) (some 0) ⟨⟨0, 1, 0⟩, none, none⟩ = .ok
      { lexeme := .string [0xD83D, 0xDE00, 0x0A] true
        raw := some (Text.ofString "'\\u\x7b1F600\x7d\\\r\n\\12'")
        lineNumber := 2
        lineStart := some 0
        start := 0
        stop := 17 } ⟨⟨17, 2, 13⟩, none, none⟩ := by
  have spelled : Spelled 0x27 [.braced 0x75 (Text.ofString "1F600"), .continuation [0x0D, 0x0A],
      .octal 0x31 [0x32]] [0x27] :=
    ⟨⟨by decide, by decide, by decide, by decide⟩, trivial, by simp [Valid], trivial,
      ⟨by decide, by decide, by decide⟩, .inr (Text.stops_cons (by decide)), trivial⟩
  exact token_decodes _ 0x27 [] (some 0) _ _ (.inl rfl) spelled (by decide)

/-! ### What is refused -/

theorem halts_of_malformed {letter : CodePoint} (isLetter : letter ∈ [0x75, 0x78])
    (noHex : ∀ digits rest, left = digits ++ rest → ¬ (StringElement.hex letter digits).Valid quote)
    (noBrace : ∀ digits rest, left = 0x7B :: (digits ++ 0x7D :: rest) →
      ¬ (StringElement.braced letter digits).Valid quote) : Halts quote (0x5C :: letter :: left) := by
  intro element rest same ends valid
  cases element with
  | raw ch => exact valid.2.1 (List.cons.inj same).1.symm
  | control letter' denoted =>
    obtain ⟨rfl, -⟩ := List.cons.inj (List.cons.inj same).2
    have others : ∀ pair ∈ controls, pair.1 ∉ [0x75, 0x78] := by decide
    exact others _ valid isLetter
  | hex letter' digits =>
    obtain ⟨rfl, rfl⟩ := List.cons.inj (List.cons.inj same).2
    exact noHex digits rest rfl valid
  | braced letter' digits =>
    obtain ⟨rfl, rfl⟩ := List.cons.inj (List.cons.inj same).2
    exact noBrace digits rest (by simp) valid
  | octal first more =>
    obtain ⟨rfl, -⟩ := List.cons.inj (List.cons.inj same).2
    have other : ¬ (letter = 0x75 ∨ letter = 0x78) := by simpa using (digit_isOther valid.1).2.1
    exact other (by simpa using isLetter)
  | other ch =>
    obtain ⟨rfl, -⟩ := List.cons.inj (List.cons.inj same).2
    exact valid.1 isLetter
  | continuation terminator =>
    have breaks : ∀ terminator ∈ [[0x0A], [0x0D], [0x0D, 0x0A], [0x2028], [0x2029]],
        ∀ letter ∈ [0x75, 0x78], terminator.head? ≠ some letter ∧ terminator ≠ [] := by decide
    obtain ⟨other, nonempty⟩ := breaks terminator valid letter isLetter
    obtain ⟨first, more, rfl⟩ := exists_cons_of_ne_nil nonempty
    exact other (congrArg some (List.cons.inj (List.cons.inj same).2).1.symm)

/-- A string that is accepted consists of elements, so behind the letter of a hexadecimal escape are as many
digits as it takes, or digits in braces. Braces may follow either letter. Whatever else goes on behind one
of the letters is refused. Only where the source itself ends with the letter or the brace is the fault that
there is nothing left to read. -/
theorem token_refuses_malformed (quote : CodePoint) (lineStart : Option Nat) (src : Source) (c : Cursor)
    (isQuote : quote = 0x27 ∨ quote = 0x22) (found : src[c.index]? = some quote) :
    (∀ token d, StringLiteral.token src lineStart c = .ok token d →
      ∃ elements rest, Spelled quote elements (quote :: rest) ∧
        src.ahead c.index = quote :: (StringElement.text elements ++ quote :: rest) ∧
        token.raw = some (quote :: (StringElement.text elements ++ [quote])) ∧
        token.lexeme = .string (elements.flatMap value) (elements.any isOctal)) ∧
    ∀ elements letter left, letter ∈ [0x75, 0x78] → Spelled quote elements (0x5C :: letter :: left) →
      src.ahead (c.index + 1) = StringElement.text elements ++ 0x5C :: letter :: left →
      (∀ digits rest, left = digits ++ rest → ¬ (StringElement.hex letter digits).Valid quote) →
      (∀ digits rest, left = 0x7B :: (digits ++ 0x7D :: rest) →
        ¬ (StringElement.braced letter digits).Valid quote) →
      ∃ fault d, StringLiteral.token src lineStart c = .error fault d ∧
        (fault = .illegal ∨ fault = .pastEnd ∧ (left = [] ∨ left = [0x7B])) := by
  have notBackslash : quote ≠ 0x5C := by rcases isQuote with rfl | rfl <;> decide
  refine ⟨fun token d run => ?_, fun elements letter left isLetter spelled behind noHex noBrace => ?_⟩
  · obtain ⟨elements, rest, spelled, ahead, met⟩ := token_decides lineStart isQuote found
    obtain ⟨⟨more, rfl⟩, rfl, -⟩ := met.of_ok run
    exact ⟨elements, more, spelled, ahead, rfl, rfl⟩
  · have ahead := ahead_of_found found
    rw [behind] at ahead
    have met := token_meets lineStart isQuote spelled (halts_of_malformed isLetter noHex noBrace) ahead
    cases run : StringLiteral.token src lineStart c with
    | ok token d =>
      obtain ⟨⟨more, same⟩, -⟩ := met.of_ok run
      exact absurd (List.cons.inj same).1.symm notBackslash
    | error fault d =>
      refine ⟨fault, d, rfl, ?_⟩
      rcases (met.of_error run).2 with ⟨illegal, -⟩ | ⟨pastEnd, cut, -⟩
      · exact .inl illegal
      · simp only [Cut, mem_cons, List.cons.injEq, not_mem_nil] at cut
        grind

/-- Braces are accepted behind `x`, and a single digit is refused. -/
theorem token_refuses_malformed_x : (∃ elements rest, Spelled 0x27 elements (0x27 :: rest) ∧
      Text.ofString "'\\x\x7b41\x7d'" = 0x27 :: (StringElement.text elements ++ 0x27 :: rest)) ∧
    ∃ d, token (Source.ofText (Text.ofString "'\\x4'")) none ⟨⟨0, 1, 0⟩, none, none⟩ =
      .error .illegal d := by
  constructor
  · have accepted := (token_refuses_malformed 0x27 none (Source.ofText (Text.ofString "'\\x\x7b41\x7d'"))
      ⟨⟨0, 1, 0⟩, none, none⟩ (.inl rfl) (by decide)).1
      { lexeme := .string [0x41] false
        raw := some (Text.ofString "'\\x\x7b41\x7d'")
        lineNumber := 1
        lineStart := none
        start := 0
        stop := 8 } ⟨⟨8, 1, 0⟩, none, none⟩ rfl
    obtain ⟨elements, rest, spelled, found, -⟩ := accepted
    exact ⟨elements, rest, spelled, found⟩
  · have short (digits rest : Text) (same : [0x34, 0x27] = digits ++ rest) :
        ¬ (StringElement.hex 0x78 digits).Valid 0x27 := by
      rintro ⟨sized, all⟩
      match digits, same with
      | [], _ | [_], _ => simp at sized
      | 0x34 :: 0x27 :: _, _ => exact absurd (all 0x27 (by simp)) (by decide)
    obtain ⟨fault, d, run, rfl | ⟨-, isNil | isBrace⟩⟩ :=
      (token_refuses_malformed 0x27 none (Source.ofText (Text.ofString "'\\x4'"))
        ⟨⟨0, 1, 0⟩, none, none⟩ (.inl rfl) (by decide)).2 [] 0x78 [0x34, 0x27] (by decide) trivial
        (by decide) short (by simp)
    · exact ⟨d, run⟩
    · cases isNil
    · cases isBrace

end StringLiteral

end EcmaScript
