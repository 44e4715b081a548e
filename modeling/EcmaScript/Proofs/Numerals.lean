import EcmaScript.Proofs.Ahead

/-!
The grammar of numeric literals, and that the scanner of numbers takes the longest literal at its
start. A literal ends where the text behind it does not go on with it, which one look at the next few
characters tells; of two literals at one place, the one that ends there is the longer. The scanner
finds a literal that ends and then looks at the next character, which must not be glued to it.
-/

namespace EcmaScript

open Scan Character List Text

/-- A radix that is marked by a letter behind a zero. -/
inductive Radix where
  | hexadecimal | binary | octal
  deriving DecidableEq, Repr

variable {radix : Radix}

namespace Radix

def marks : Radix → List CodePoint
  | hexadecimal => [0x78, 0x58]
  | binary => [0x62, 0x42]
  | octal => [0x6F, 0x4F]

def base : Radix → Nat
  | hexadecimal => 16
  | binary => 2
  | octal => 8

def isDigit : Radix → CodePoint → Bool
  | hexadecimal => isHexDigit
  | binary => isBinaryDigit
  | octal => isOctalDigit

theorem mark_other : ∀ mark ∈ radix.marks,
    isDecimalDigit mark = false ∧ isIdentifierStart mark = true ∧ mark ≠ 0x2E ∧ mark ≠ 0x65 ∧
      mark ≠ 0x45 := by
  cases radix <;> decide

theorem eq_of_mark {radix other : Radix} : ∀ mark ∈ radix.marks, mark ∈ other.marks → radix = other := by
  cases radix <;> cases other <;> decide

end Radix

variable {ch : CodePoint}

theorem Character.isDecimalDigit_of_octal (octal : isOctalDigit ch = true) :
    isDecimalDigit ch = true := by
  simp only [isOctalDigit, isDecimalDigit, Bool.and_eq_true, decide_eq_true_eq] at octal ⊢
  exact ⟨octal.1, by simp only [CodePoint] at *; omega⟩

structure Power where
  mark : CodePoint
  sign : Option CodePoint
  digits : Text
  deriving DecidableEq, Repr

namespace Power

def spelling (power : Power) : Text :=
  power.mark :: (power.sign.toList ++ power.digits)

def value (power : Power) : Int :=
  let size : Int := positional 10 power.digits
  if power.sign = some 0x2D then -size else size

structure Valid (power : Power) : Prop where
  mark : power.mark = 0x65 ∨ power.mark = 0x45
  sign : ∀ sign ∈ power.sign, sign = 0x2B ∨ sign = 0x2D
  nonempty : power.digits ≠ []
  digits : ∀ ch ∈ power.digits, isDecimalDigit ch = true

end Power

inductive Numeral where
  | marked (radix : Radix) (mark : CodePoint) (digits : Text)
  | oldOctal (digits : Text)
  | decimal (whole : Text) (part : Option Text) (power : Option Power)
  deriving DecidableEq, Repr

namespace Numeral

/-- The part of a decimal literal behind its whole digits. -/
def tail (part : Option Text) (power : Option Power) : Text :=
  part.elim [] (0x2E :: ·) ++ power.elim [] Power.spelling

def spelling : Numeral → Text
  | marked _ mark digits => 0x30 :: mark :: digits
  | oldOctal digits => 0x30 :: digits
  | decimal whole part power => whole ++ tail part power

/-- A decimal literal has digits before or behind its point, and if its digits go on after a zero then
an eight or a nine tells it from an octal one. -/
def Valid : Numeral → Prop
  | marked radix mark digits =>
    mark ∈ radix.marks ∧ digits ≠ [] ∧ ∀ ch ∈ digits, radix.isDigit ch = true
  | oldOctal digits => digits ≠ [] ∧ ∀ ch ∈ digits, isOctalDigit ch = true
  | decimal whole part power =>
    (∀ ch ∈ whole, isDecimalDigit ch = true) ∧
    (∀ digits ∈ part, ∀ ch ∈ digits, isDecimalDigit ch = true) ∧ (∀ p ∈ power, p.Valid) ∧
    (whole = [] → ∃ digits, part = some digits ∧ digits ≠ []) ∧
    ∀ more, whole = 0x30 :: more → more ≠ [] → ∃ ch ∈ more, ch = 0x38 ∨ ch = 0x39

/-- Literals with a radix other than ten are integers. A decimal one is the double nearest to the number
that its digits denote, with the point as many places before the end as there are digits behind it. -/
def value : Numeral → Number
  | marked radix _ digits => .integer (positional radix.base digits)
  | oldOctal digits => .integer (positional 8 digits)
  | decimal whole part power =>
    .double (Double.ofDecimal
      { digits := positional 10 (whole ++ part.getD [])
        exponent := power.elim 0 Power.value - (part.getD []).length })

/-- The literal as a token where the cursor is. -/
def token (n : Numeral) (c : Cursor) : Token where
  lexeme := .numeric n.value
  raw := some n.spelling
  lineNumber := c.lineNumber
  lineStart := some c.lineStart
  start := c.index
  stop := c.index + n.spelling.length

def StartsPower (text : Text) : Prop :=
  ∃ power : Power, power.Valid ∧ power.spelling <+: text

/-- The text behind a literal does not go on with it. -/
def Ends : Numeral → Text → Prop
  | marked radix _ _, rest => Text.Stops radix.isDigit rest
  | oldOctal _, rest => Text.Stops isDecimalDigit rest
  | decimal whole part power, rest =>
    Text.Stops isDecimalDigit rest ∧ (power = none → ¬ StartsPower rest ∧
      (part = none → rest.head? ≠ some 0x2E ∧ (whole = [0x30] →
        ∀ radix : Radix, ∀ mark ∈ radix.marks, ∀ more, rest = mark :: more →
          Text.Stops radix.isDigit more)))

/-- What the scanner is called at: a digit, or a point with a digit behind it. -/
inductive Starts : Text → Prop
  | digit {ch : CodePoint} {more : Text} (isDigit : isDecimalDigit ch = true) : Starts (ch :: more)
  | point {digit : CodePoint} {more : Text} (isDigit : isDecimalDigit digit = true) :
    Starts (0x2E :: digit :: more)

/-- A character follows the literal, and where an exponent part seems to begin, the characters that tell
whether it does are there. -/
def Looks : Numeral → Text → Prop
  | decimal _ _ none, rest => rest ≠ [] ∧ ∀ mark, mark = 0x65 ∨ mark = 0x45 →
    rest ≠ [mark] ∧ ∀ sign, sign = 0x2B ∨ sign = 0x2D → rest ≠ [mark, sign]
  | _, rest => rest ≠ []

/-! ### The longest literal -/

variable {part other : Option Text} {power power' : Option Power} {rest rest' more : Text}

section

variable (valid : ∀ p ∈ power, p.Valid)
include valid

theorem power_stops (stops : power = none → Text.Stops isDecimalDigit rest) :
    Text.Stops isDecimalDigit (power.elim [] Power.spelling ++ rest) := by
  cases power with
  | none => exact stops rfl
  | some p =>
    refine stops_cons ?_
    rcases (valid p rfl).mark with isMark | isMark <;> rw [isMark] <;> rfl

theorem tail_stops (stops : part = none → power = none → Text.Stops isDecimalDigit rest) :
    Text.Stops isDecimalDigit (tail part power ++ rest) := by
  cases part with
  | none => exact power_stops valid (stops rfl)
  | some digits => exact stops_cons rfl

/-- A sign is no digit, so two exponent parts that begin alike have the same one. -/
theorem power_or_shorter (valid' : ∀ p ∈ power', p.Valid)
    (same : power.elim [] Power.spelling ++ rest = power'.elim [] Power.spelling ++ rest')
    (stops : Text.Stops isDecimalDigit rest) (none : power = none → ¬ StartsPower rest) :
    power' = power ∨ (power'.elim [] Power.spelling).length < (power.elim [] Power.spelling).length := by
  have notSign (p : Power) (valid : p.Valid) {s : CodePoint} (isSign : s = 0x2B ∨ s = 0x2D)
      {more more' : Text} : p.digits ++ more ≠ s :: more' := by
    intro starts
    obtain ⟨digit, digits, spelled⟩ := exists_cons_of_ne_nil valid.nonempty
    have isDigit := valid.digits digit (by simp [spelled])
    rw [spelled] at starts
    cases starts
    rcases isSign with rfl | rfl <;> cases isDigit
  cases power' with
  | none =>
    cases power with
    | none => exact .inl rfl
    | some p => exact .inr (Nat.succ_pos _)
  | some q =>
    obtain ⟨mark', sign', digits'⟩ := q
    have validQ := valid' _ rfl
    cases power with
    | none => exact absurd ⟨_, validQ, rest', same.symm⟩ (none rfl)
    | some p =>
      obtain ⟨mark, sign, digits⟩ := p
      have validP := valid _ rfl
      obtain ⟨rfl, same'⟩ := List.cons.inj same
      have sameSign : sign = sign' ∧ digits ++ rest = digits' ++ rest' := by
        cases sign with
        | none =>
          cases sign' with
          | none => exact ⟨rfl, same'⟩
          | some s => exact absurd same' (notSign _ validP (validQ.sign s rfl))
        | some s =>
          cases sign' with
          | none => exact absurd same'.symm (notSign _ validQ (validP.sign s rfl))
          | some s' =>
            obtain ⟨rfl, same''⟩ := List.cons.inj same'
            exact ⟨rfl, same''⟩
      obtain ⟨rfl, same''⟩ := sameSign
      rcases span_or_shorter same'' stops validQ.digits with ⟨rfl, -⟩ | shorter
      · exact .inl rfl
      · exact .inr (by simpa [Power.spelling] using shorter)

theorem tail_or_shorter (valid' : ∀ p ∈ power', p.Valid)
    (digits : ∀ digits ∈ part, ∀ ch ∈ digits, isDecimalDigit ch = true)
    (digits' : ∀ digits ∈ other, ∀ ch ∈ digits, isDecimalDigit ch = true)
    (same : tail part power ++ rest = tail other power' ++ rest') (stops : Text.Stops isDecimalDigit rest)
    (none : power = none → ¬ StartsPower rest ∧ (part = none → rest.head? ≠ some 0x2E)) :
    other = part ∧ power' = power ∨ (tail other power').length < (tail part power).length := by
  have compare (same : power.elim [] Power.spelling ++ rest = power'.elim [] Power.spelling ++ rest') :=
    power_or_shorter valid valid' same stops fun isNone => (none isNone).1
  have notPoint {p : Power} (valid : p.Valid) : p.mark ≠ 0x2E := by
    rcases valid.mark with isMark | isMark <;> rw [isMark] <;> decide
  cases other with
  | none =>
    cases part with
    | none => exact (compare same).imp_left fun unique => ⟨rfl, unique⟩
    | some ds =>
      cases power' with
      | none => exact .inr (Nat.succ_pos _)
      | some q => exact absurd (List.cons.inj same).1.symm (notPoint (valid' q rfl))
  | some ds' =>
    cases part with
    | none =>
      cases power with
      | none => exact absurd (congrArg List.head? same) ((none rfl).2 rfl)
      | some p => exact absurd (List.cons.inj same).1 (notPoint (valid p rfl))
    | some ds =>
      have same : ds ++ (power.elim [] Power.spelling ++ rest) =
          ds' ++ (power'.elim [] Power.spelling ++ rest') := by
        simpa [tail] using same
      have ended := power_stops valid fun _ => stops
      rcases span_or_shorter same ended (digits' ds' rfl) with ⟨rfl, same'⟩ | shorter
      · exact (compare same'.symm).imp (fun unique => ⟨rfl, unique⟩) fun shorter => by
          simpa [tail] using shorter
      · cases power' with
        | none =>
          right
          simp only [tail, Option.elim_some, Option.elim_none, length_append, length_cons,
            length_nil]
          omega
        | some q =>
          obtain ⟨rfl, -⟩ := span_unique same (digits ds rfl) ended (digits' ds' rfl)
            (power_stops valid' nofun)
          exact absurd shorter (Nat.lt_irrefl _)

end

variable {n m : Numeral} {whole digits : Text}

theorem head_decimal (valid : (decimal whole part power).Valid) {more : Text}
    (same : whole ++ (tail part power ++ rest) = ch :: more) (other : ch ≠ 0x2E) :
    ∃ digits, whole = ch :: digits := by
  cases whole with
  | nil =>
    obtain ⟨digits, rfl, -⟩ := valid.2.2.2.1 rfl
    exact absurd (List.cons.inj same).1.symm other
  | cons first digits => exact ⟨digits, by rw [(List.cons.inj same).1]⟩

theorem eq_zero_of_mark {mark : CodePoint} {more : Text}
    (valid : (decimal whole part power).Valid) (isMark : mark ∈ radix.marks)
    (same : whole ++ (tail part power ++ rest) = 0x30 :: mark :: more) :
    whole = [0x30] ∧ part = none ∧ power = none ∧ rest = mark :: more := by
  obtain ⟨notDigit, -, notPoint, notLower, notUpper⟩ := radix.mark_other mark isMark
  obtain ⟨digits, rfl⟩ := head_decimal valid same (by decide)
  have same := (List.cons.inj same).2
  cases digits with
  | cons digit digits =>
    have isDigit := valid.1 digit (by simp)
    rw [(List.cons.inj same).1, notDigit] at isDigit
    cases isDigit
  | nil =>
    cases part with
    | some digits => exact absurd (List.cons.inj same).1.symm notPoint
    | none =>
      cases power with
      | none => exact ⟨rfl, rfl, rfl, same⟩
      | some p =>
        have isMark := (List.cons.inj same).1
        rcases (valid.2.2.1 p rfl).mark with isE | isE
        · exact absurd (isMark.symm.trans isE) notLower
        · exact absurd (isMark.symm.trans isE) notUpper

theorem not_octal_of_large (valid : (decimal (0x30 :: more) part power).Valid)
    (nonempty : more ≠ []) : ¬ ∀ ch ∈ more, isOctalDigit ch = true := by
  intro all
  obtain ⟨ch, member, large⟩ := valid.2.2.2.2 more rfl nonempty
  have isOctal := all ch member
  rcases large with rfl | rfl <;> cases isOctal

theorem oldOctal_decimal (valid : (oldOctal digits).Valid) :
    ∀ ch ∈ 0x30 :: digits, isDecimalDigit ch = true := by
  simpa [isDecimalDigit] using fun ch member => isDecimalDigit_of_octal (valid.2 ch member)

theorem oldOctal_unmarked (valid : (oldOctal digits).Valid) {mark : CodePoint}
    (isMark : mark ∈ radix.marks) : digits ++ rest ≠ mark :: more := by
  intro same
  obtain ⟨digit, others, rfl⟩ := exists_cons_of_ne_nil valid.1
  have isDigit := oldOctal_decimal valid digit (by simp)
  rw [(List.cons.inj same).1, (radix.mark_other mark isMark).1] at isDigit
  cases isDigit

theorem decimal_shorter (valid : (decimal whole part power).Valid)
    (all : ∀ ch ∈ digits, isDecimalDigit ch = true) (stops : Text.Stops isDecimalDigit more)
    (same : digits ++ more = whole ++ (tail part power ++ rest)) (shorter : whole.length < digits.length) :
    (decimal whole part power).spelling.length < digits.length := by
  by_cases bare : part = none ∧ power = none
  · obtain ⟨rfl, rfl⟩ := bare
    simpa [spelling, tail] using shorter
  · obtain ⟨rfl, -⟩ := span_unique same all stops valid.1
      (tail_stops valid.2.2.1 fun isNone isNone' => absurd ⟨isNone, isNone'⟩ bare)
    exact absurd shorter (Nat.lt_irrefl _)

/-- A literal that ends is longer than any other one at its place. -/
theorem eq_or_shorter (valid : n.Valid) (valid' : m.Valid) (ends : n.Ends rest)
    (same : n.spelling ++ rest = m.spelling ++ rest') :
    m = n ∨ m.spelling.length < n.spelling.length := by
  cases n with
  | decimal whole part power =>
    have stops : Text.Stops isDecimalDigit (tail part power ++ rest) :=
      tail_stops valid.2.2.1 fun _ _ => ends.1
    rw [spelling, append_assoc] at same
    cases m with
    | marked radix mark digits =>
      obtain ⟨first, others, rfl⟩ := exists_cons_of_ne_nil valid'.2.1
      obtain ⟨rfl, rfl, rfl, rfl⟩ := eq_zero_of_mark valid valid'.1 same
      have outside := ((ends.2 rfl).2 rfl).2 rfl radix mark valid'.1 _ rfl first _ rfl
      rw [valid'.2.2 first (by simp)] at outside
      cases outside
    | oldOctal digits =>
      rcases span_or_shorter same stops (oldOctal_decimal valid') with ⟨rfl, -⟩ | shorter
      · exact absurd valid'.2 (not_octal_of_large valid valid'.1)
      · refine .inr (Nat.lt_of_lt_of_le shorter ?_)
        simp [spelling]
    | decimal whole' other power' =>
      rw [spelling, append_assoc] at same
      rcases span_or_shorter same stops valid'.1 with ⟨rfl, same'⟩ | shorter
      · refine (tail_or_shorter valid.2.2.1 valid'.2.2.1 valid.2.1 valid'.2.1 same'.symm ends.1 ?_).imp
          (fun unique => by rw [unique.1, unique.2]) fun shorter => by simpa [spelling] using shorter
        exact fun isNone => ⟨(ends.2 isNone).1, fun isNone' => ((ends.2 isNone).2 isNone').1⟩
      · refine .inr (Nat.lt_of_lt_of_le (decimal_shorter valid' valid.1 stops same shorter) ?_)
        simp [spelling]
  | marked radix mark digits =>
    cases m with
    | marked radix' mark' digits' =>
      obtain ⟨rfl, same'⟩ := List.cons.inj (List.cons.inj same).2
      obtain rfl := Radix.eq_of_mark mark valid.1 valid'.1
      rcases span_or_shorter same' ends valid'.2.2 with ⟨rfl, -⟩ | shorter
      · exact .inl rfl
      · exact .inr (by simpa [spelling] using shorter)
    | oldOctal digits' =>
      exact absurd (List.cons.inj same).2.symm (oldOctal_unmarked valid' valid.1)
    | decimal whole other power =>
      rw [spelling, spelling, append_assoc] at same
      obtain ⟨rfl, rfl, rfl, -⟩ := eq_zero_of_mark valid' valid.1 same.symm
      exact .inr (by simp [spelling, tail])
  | oldOctal digits =>
    cases m with
    | marked radix mark digits' =>
      exact absurd (List.cons.inj same).2 (oldOctal_unmarked valid valid'.1)
    | oldOctal digits' =>
      rcases span_or_shorter (List.cons.inj same).2 ends fun ch member =>
        oldOctal_decimal valid' ch (.tail _ member) with ⟨rfl, -⟩ | shorter
      · exact .inl rfl
      · exact .inr (by simpa [spelling] using shorter)
    | decimal whole other power =>
      have same : 0x30 :: digits ++ rest = whole ++ (tail other power ++ rest') := by
        rwa [spelling, spelling, append_assoc] at same
      rcases span_or_shorter same ends valid'.1 with ⟨rfl, -⟩ | shorter
      · exact absurd valid.2 (not_octal_of_large valid' valid.1)
      · exact .inr (decimal_shorter valid' (oldOctal_decimal valid) ends same shorter)

/-! ### The scanner -/

/-- Characters that numeric literals are made of. -/
def isNumeric (ch : CodePoint) : Bool :=
  isHexDigit ch || [0x2E, 0x2B, 0x2D, 0x78, 0x58, 0x62, 0x42, 0x6F, 0x4F].contains ch

/-- Characters that must not stand right behind a literal. -/
def isGlued (ch : CodePoint) : Bool :=
  isIdentifierStart ch || isDecimalDigit ch

theorem isNumeric_of_decimal (isDigit : isDecimalDigit ch = true) : isNumeric ch = true := by
  simp [isNumeric, isHexDigit, isDigit]

theorem Radix.isNumeric_of_digit (isDigit : radix.isDigit ch = true) : isNumeric ch = true := by
  cases radix with
  | hexadecimal => simp [isNumeric, show isHexDigit ch = true from isDigit]
  | binary =>
    have isBit : ch = 0x30 ∨ ch = 0x31 := by simpa [Radix.isDigit, isBinaryDigit] using isDigit
    rcases isBit with rfl | rfl <;> rfl
  | octal => exact isNumeric_of_decimal (isDecimalDigit_of_octal isDigit)

theorem isNumeric_power {power : Power} (valid : power.Valid) :
    ∀ ch ∈ power.spelling, isNumeric ch = true := by
  intro ch member
  simp only [Power.spelling, mem_cons, mem_append, Option.mem_toList] at member
  rcases member with rfl | isSign | isDigit
  · rcases valid.mark with isMark | isMark <;> rw [isMark] <;> rfl
  · rcases valid.sign ch isSign with rfl | rfl <;> rfl
  · exact isNumeric_of_decimal (valid.digits ch isDigit)

theorem isNumeric_spelling (valid : n.Valid) : ∀ ch ∈ n.spelling, isNumeric ch = true := by
  intro ch member
  cases n with
  | marked radix mark digits =>
    obtain ⟨isMark, -, all⟩ := valid
    simp only [spelling, mem_cons] at member
    rcases member with rfl | rfl | member
    · rfl
    · have numeric : ∀ mark ∈ radix.marks, isNumeric mark = true := by cases radix <;> decide
      exact numeric ch isMark
    · exact Radix.isNumeric_of_digit (all ch member)
  | oldOctal digits =>
    simp only [spelling, mem_cons] at member
    rcases member with rfl | member
    · rfl
    · exact isNumeric_of_decimal (isDecimalDigit_of_octal (valid.2 ch member))
  | decimal whole part power =>
    obtain ⟨isWhole, isPart, isPower, -⟩ := valid
    simp only [spelling, tail, mem_append] at member
    rcases member with member | member | member
    · exact isNumeric_of_decimal (isWhole ch member)
    · cases part with
      | none => cases member
      | some digits =>
        rcases mem_cons.mp member with rfl | member
        · rfl
        · exact isNumeric_of_decimal (isPart digits rfl ch member)
    · cases power with
      | none => cases member
      | some p => exact isNumeric_power (isPower p rfl) ch member

variable {src : Source} {c d : Cursor} {index : Nat}

/-- The literal stands at the cursor and ends before the rest. -/
structure At (src : Source) (c : Cursor) (n : Numeral) (rest : Text) : Prop where
  valid : n.Valid
  found : src.ahead c.index = n.spelling ++ rest
  ends : n.Ends rest

def Returned (src : Source) (c : Cursor) (n : Numeral) (rest : Text) (token : Token) (d : Cursor) :
    Prop :=
  token = n.token c ∧ c.Took src n.spelling rest d ∧ Text.Stops isGlued rest

/-- The scanner has failed at the literal or a little behind it: because of what is glued to it, or
because the source ends too soon. -/
structure Refused (src : Source) (c : Cursor) (n : Numeral) (rest : Text) (fault : ScanFault)
    (d : Cursor) : Prop where
  place : ∃ extra left, c.Took src (n.spelling ++ extra) left d ∧
    (∀ ch ∈ extra, isNumeric ch = true) ∧ (fault = .pastEnd → left = [])
  reason : fault = .illegal ∧ (∃ ch more, rest = ch :: more ∧ isGlued ch = true) ∨
    fault = .pastEnd ∧ ¬ n.Looks rest

/-- What is left to scan returns or refuses a literal that stands at `c`. -/
def Decides (src : Source) (c : Cursor) (scanner : ScanM Token) (d : Cursor) : Prop :=
  ∃ n rest, At src c n rest ∧ Meets scanner d (Returned src c n rest) (Refused src c n rest)

variable {ch mark : CodePoint} {radix : Radix} {digits text : Text}

theorem refused_glued (took : c.Took src n.spelling rest d) (starts : rest = ch :: more)
    (glued : isGlued ch = true) : Refused src c n rest .illegal d :=
  ⟨⟨[], rest, by rwa [append_nil], by simp, nofun⟩, .inl ⟨rfl, ch, more, starts, glued⟩⟩

theorem refused_short (took : c.Took src n.spelling [] d) (short : ¬ n.Looks []) :
    Refused src c n [] .pastEnd d :=
  ⟨⟨[], [], by rwa [append_nil], by simp, fun _ => rfl⟩, .inr ⟨rfl, short⟩⟩

theorem finish_returned (took : c.Took src n.spelling rest d) (stops : Text.Stops isGlued rest)
    {fails : ScanFault → Cursor → Prop} :
    Meets (Numeric.finish src c.index n.value) d (Returned src c n rest) fails := by
  refine .get_bind (.pure ⟨?_, took, stops⟩)
  rw [took.slice, took.cursor]
  rfl

/-- The last test of a scanner: the character behind the literal. -/
theorem close_meets {p : Prop} [Decidable p] {scanner : ScanM Token}
    (took : c.Took src n.spelling (ch :: rest) d) (tests : p ↔ isGlued ch = true)
    (met : Text.Stops isGlued (ch :: rest) →
      Meets scanner d (Returned src c n (ch :: rest)) (Refused src c n (ch :: rest))) :
    Meets (if p then throw .illegal else scanner) d (Returned src c n (ch :: rest))
      (Refused src c n (ch :: rest)) := by
  split
  next glued => exact refused_glued took rfl (tests.mp glued)
  next free => exact met (stops_cons (by simpa using mt tests.mpr free))

theorem not_startsPower (other : ch ≠ 0x65 ∧ ch ≠ 0x45) : ¬ StartsPower (ch :: more) := by
  rintro ⟨power, valid, left, starts⟩
  obtain ⟨same, -⟩ := List.cons.inj starts
  rcases valid.mark with isMark | isMark
  · exact other.1 (same.symm.trans isMark)
  · exact other.2 (same.symm.trans isMark)

theorem zero_at (isMark : mark ∈ radix.marks) (found : src.ahead c.index = 0x30 :: mark :: more)
    (stops : Text.Stops radix.isDigit more) : At src c (decimal [0x30] none none) (mark :: more) := by
  obtain ⟨notDigit, -, notPoint, notE⟩ := radix.mark_other mark isMark
  refine ⟨⟨by decide, nofun, nofun, nofun, ?_⟩, found, stops_cons notDigit,
    fun _ => ⟨not_startsPower notE, fun _ => ⟨by simpa using notPoint, ?_⟩⟩⟩
  · rintro more ⟨⟩ nonempty
    exact absurd rfl nonempty
  · rintro _ radix' mark' isMark' more' ⟨⟩
    obtain rfl := Radix.eq_of_mark mark isMark isMark'
    exact stops

theorem zero_refused (isMark : mark ∈ radix.marks) (took : c.Took src [0x30, mark] more d) :
    Refused src c (decimal [0x30] none none) (mark :: more) .illegal d := by
  have numeric := isNumeric_spelling (n := marked radix mark [0x30])
    ⟨isMark, by simp, by cases radix <;> decide⟩ mark (by simp [spelling])
  refine ⟨⟨[mark], more, took, by simpa using numeric, nofun⟩, .inl ⟨rfl, mark, more, rfl, ?_⟩⟩
  simp [isGlued, (radix.mark_other mark isMark).2.1]

theorem hex_decides (isMark : mark ∈ Radix.hexadecimal.marks) (took : c.Took src [0x30, mark] text d) :
    Decides src c (Numeric.hex src c.index) d := by
  obtain ⟨digits, rest, rfl, all, stops⟩ := exists_span isHexDigit text
  by_cases bare : digits = []
  · subst bare
    refine ⟨_, _, zero_at isMark took.found stops, took.run all stops fun e took' => ?_⟩
    exact zero_refused isMark took'
  · refine ⟨marked .hexadecimal mark digits, rest, ⟨⟨isMark, bare, all⟩, took.found, stops⟩,
      took.run all stops fun e (took' : c.Took src (spelling (marked .hexadecimal mark digits)) rest e) => ?_⟩
    rw [if_neg bare]
    cases rest with
    | nil => exact took'.missing (refused_short took' (absurd rfl))
    | cons ch rest =>
      have notDigit : isDecimalDigit ch = false := by
        have notHex := stops ch rest rfl
        simp only [isHexDigit, Bool.or_eq_false_iff] at notHex
        exact notHex.1.1
      refine took'.current (close_meets took' ?_ fun free => finish_returned took' free)
      simp [isGlued, notDigit]

theorem binary_decides (isMark : mark ∈ Radix.binary.marks) (took : c.Took src [0x30, mark] text d) :
    Decides src c (Numeric.binary src c.index) d := by
  obtain ⟨digits, rest, rfl, all, stops⟩ := exists_span isBinaryDigit text
  by_cases bare : digits = []
  · subst bare
    refine ⟨_, _, zero_at isMark took.found stops, took.run all stops fun e took' => ?_⟩
    exact zero_refused isMark took'
  · refine ⟨marked .binary mark digits, rest, ⟨⟨isMark, bare, all⟩, took.found, stops⟩,
      took.run all stops fun e (took' : c.Took src (spelling (marked .binary mark digits)) rest e) => ?_⟩
    rw [if_neg bare]
    refine .get_bind ?_
    cases rest with
    | nil =>
      simp only [took'.lookup, List.head?_nil]
      exact finish_returned took' stops_nil
    | cons ch rest =>
      simp only [Source.getElem?_head took'.ahead]
      exact close_meets took' (Iff.of_eq rfl) fun free => finish_returned took' free

theorem octal_close {digits : Text} (took : c.Took src n.spelling rest d) (bare : digits ≠ [])
    (octal : ∀ ch ∈ digits, isOctalDigit ch = true) (value : n.value = .integer (positional 8 digits))
    (short : ¬ n.Looks []) :
    Meets (do
      if digits = [] then throw .illegal
      else do
        let c' ← current src
        if isIdentifierStart c' || isDecimalDigit c' then throw .illegal
        else if digits.all isOctalDigit then
          Numeric.finish src c.index (.integer (positional 8 digits))
        else throw .noNumber) d (Returned src c n rest) (Refused src c n rest) := by
  rw [if_neg bare]
  cases rest with
  | nil => exact took.missing (refused_short took short)
  | cons ch rest =>
    refine took.current (close_meets took (Iff.of_eq rfl) fun free => ?_)
    rw [if_pos (all_eq_true.mpr octal), ← value]
    exact finish_returned took free

theorem octal_decides (isMark : mark ∈ Radix.octal.marks) (took : c.Took src [0x30] (mark :: text) d) :
    Decides src c (Numeric.octal src false c.index) d := by
  obtain ⟨digits, rest, rfl, all, stops⟩ := exists_span isOctalDigit text
  have skipped : c.Took src [0x30, mark] (digits ++ rest) _ := took.skip
  by_cases bare : digits = []
  · subst bare
    refine ⟨_, _, zero_at isMark took.found stops,
      .modify_bind (.into (skipped.run all stops fun e took' => ?_))⟩
    exact zero_refused isMark took'
  · refine ⟨marked .octal mark digits, rest, ⟨⟨isMark, bare, all⟩, took.found, stops⟩,
      .modify_bind (.into (skipped.run all stops fun e took' => ?_))⟩
    exact octal_close took' bare all rfl (absurd rfl)

theorem isOldOctal_iff (found : src.ahead index = ch :: (digits ++ rest))
    (all : ∀ ch ∈ digits, isOctalDigit ch = true) (stops : Text.Stops isOctalDigit rest) :
    Numeric.isOldOctal src index = true ↔ Text.Stops isDecimalDigit rest := by
  have behind := Source.ahead_cons found
  have length : runLength src isOctalDigit (src.size - (index + 1)) (index + 1) = digits.length :=
    spanAt_text behind all stops
  have next := src.getElem?_ahead (index + 1 + digits.length) 0
  rw [Source.ahead_append behind, Nat.add_zero] at next
  unfold Numeric.isOldOctal
  simp only [length, next]
  cases rest with
  | nil => simp [stops_nil]
  | cons ch more =>
    rw [stops_cons_iff] at stops ⊢
    simp only [isOctalDigit, isDecimalDigit, List.getElem?_cons_zero] at stops ⊢
    grind

theorem oldOctal_decides (isOctal : isOctalDigit ch = true) (took : c.Took src [0x30] (ch :: text) d)
    (old : Numeric.isOldOctal src d.index = true) : Decides src c (Numeric.octal src true c.index) d := by
  obtain ⟨digits, rest, rfl, all, stops⟩ := exists_span isOctalDigit text
  have octal : ∀ digit ∈ ch :: digits, isOctalDigit digit = true := by simpa [isOctal] using all
  have ends := (isOldOctal_iff took.ahead all stops).mp old
  refine ⟨oldOctal (ch :: digits), rest, ⟨⟨by simp, octal⟩, took.found, ends⟩, ?_⟩
  refine .into (Meets.map_iff.mpr (took.current ?_))
  refine took.skip.run all stops fun e took' => ?_
  exact octal_close took' (by simp) octal rfl (absurd rfl)

/-- What the scanner makes of the text after the digits of a decimal literal: it takes the exponent part
there, if there is one, and fails at a mark without digits. -/
def ReadsPower (src : Source) (c : Cursor) (text : Text) (ch : CodePoint) (more : Text)
    (scanner : ScanM Int) (d : Cursor) : Prop :=
  ∃ power rest, ch :: more = Option.elim power [] Power.spelling ++ rest ∧ (∀ p ∈ power, p.Valid) ∧
    (power = none → ¬ StartsPower rest) ∧ (power ≠ none → Text.Stops isDecimalDigit rest) ∧
    Meets scanner d (fun value e => value = power.elim 0 Power.value ∧
        c.Took src (text ++ power.elim [] Power.spelling) rest e)
      (fun fault e => power = none ∧ (ch = 0x65 ∨ ch = 0x45) ∧ ∃ extra left,
        c.Took src (text ++ extra) left e ∧ (∀ ch ∈ extra, isNumeric ch = true) ∧
        (fault = .illegal ∨ fault = .pastEnd ∧ left = [] ∧
          (more = [] ∨ ∃ sign, (sign = 0x2B ∨ sign = 0x2D) ∧ more = [sign])))

def isSign (ch : CodePoint) : Bool :=
  ch == 0x2B || ch == 0x2D

theorem not_startsPower_of_stops (sign : Option CodePoint) {left : Text}
    (signed : ∀ s ∈ sign, isSign s = true) (unsigned : sign = none → Text.Stops isSign left)
    (stops : Text.Stops isDecimalDigit left) : ¬ StartsPower (ch :: (sign.toList ++ left)) := by
  rintro ⟨power, valid, behind, starts⟩
  obtain ⟨digit, digits, spelled⟩ := exists_cons_of_ne_nil valid.nonempty
  have isDigit := valid.digits digit (by simp [spelled])
  have same := (List.cons.inj starts).2
  rw [spelled] at same
  cases sign with
  | none =>
    cases isSigned : power.sign with
    | none =>
      rw [isSigned] at same
      rw [stops digit _ same.symm] at isDigit
      cases isDigit
    | some s =>
      rw [isSigned] at same
      have outside := unsigned rfl s _ same.symm
      rcases valid.sign s isSigned with rfl | rfl <;> cases outside
  | some s' =>
    cases isSigned : power.sign with
    | none =>
      rw [isSigned] at same
      obtain ⟨rfl, -⟩ := List.cons.inj same
      have inside : digit = 0x2B ∨ digit = 0x2D := by simpa [isSign] using signed digit rfl
      rcases inside with rfl | rfl <;> cases isDigit
    | some s =>
      rw [isSigned] at same
      rw [stops digit _ (List.cons.inj same).2.symm] at isDigit
      cases isDigit

/-- The digits of an exponent part, behind its mark and sign. -/
theorem powerDigits_reads (sign : Option CodePoint) {left : Text} (negative : Prop)
    [Decidable negative] (isMark : ch = 0x65 ∨ ch = 0x45) (signed : ∀ s ∈ sign, isSign s = true)
    (unsigned : sign = none → Text.Stops isSign left) (minus : negative ↔ sign = some 0x2D)
    (took : c.Took src (text ++ ch :: sign.toList) left d) :
    ReadsPower src c text ch (sign.toList ++ left) (do
      let _ ← current src
      let digits ← run src isDecimalDigit
      if digits = [] then throw .illegal
      else do
        let size : Int := positional 10 digits
        pure (if negative then -size else size)) d := by
  have isSigned (s : CodePoint) (member : s ∈ sign) : s = 0x2B ∨ s = 0x2D := by
    simpa [isSign] using signed s member
  have numeric : ∀ ch' ∈ ch :: sign.toList, isNumeric ch' = true := by
    intro ch' member
    simp only [mem_cons, Option.mem_toList] at member
    rcases member with rfl | member
    · rcases isMark with rfl | rfl <;> rfl
    · rcases isSigned ch' member with rfl | rfl <;> rfl
  obtain ⟨digits, rest, rfl, all, stops⟩ := exists_span isDecimalDigit left
  by_cases bare : digits = []
  · subst bare
    refine ⟨none, _, rfl, nofun, fun _ => not_startsPower_of_stops sign signed unsigned stops, nofun, ?_⟩
    cases rest with
    | nil =>
      refine took.missing ⟨rfl, isMark, _, [], took, numeric, .inr ⟨rfl, rfl, ?_⟩⟩
      cases sign with
      | none => exact .inl rfl
      | some s => exact .inr ⟨s, isSigned s rfl, rfl⟩
    | cons next rest =>
      refine took.current (took.run all stops fun e took' => ?_)
      exact ⟨rfl, isMark, _, _, by simpa using took', numeric, .inl rfl⟩
  · obtain ⟨digit, others, spelled⟩ := exists_cons_of_ne_nil bare
    refine ⟨some ⟨ch, sign, digits⟩, rest, by simp [Power.spelling], ?_, nofun, fun _ => stops, ?_⟩
    · rintro _ ⟨⟩
      exact ⟨isMark, isSigned, bare, all⟩
    · have first : c.Took src (text ++ ch :: sign.toList) (digit :: (others ++ rest)) d := by
        simpa [spelled] using took
      refine first.current ?_
      refine took.run all stops fun e took' => ?_
      rw [if_neg bare]
      refine ⟨?_, by simpa [Power.spelling] using took'⟩
      simp only [minus]
      rfl

theorem ReadsPower.enter {scanner before : ScanM Int} {e : Cursor}
    (reads : ReadsPower src c text ch more scanner e)
    (enters : ∀ {returns fails}, Meets scanner e returns fails → Meets before d returns fails) :
    ReadsPower src c text ch more before d := by
  obtain ⟨power, rest, spelled, valid, none, some, met⟩ := reads
  exact ⟨power, rest, spelled, valid, none, some, enters met⟩

theorem exponent_reads (took : c.Took src text (ch :: more) d) :
    ReadsPower src c text ch more (Numeric.exponent src) d := by
  by_cases other : ch ≠ 0x65 ∧ ch ≠ 0x45
  · refine ⟨none, ch :: more, rfl, nofun, fun _ => not_startsPower other, nofun, took.current ?_⟩
    rw [if_neg (by simp [other])]
    exact ⟨rfl, by simpa using took⟩
  have isMark : ch = 0x65 ∨ ch = 0x45 := by simpa [Classical.or_iff_not_imp_left] using other
  have marked := took.skip
  cases more with
  | nil =>
    refine ⟨none, [ch], rfl, nofun, fun _ => ?_, nofun, took.current ?_⟩
    · exact not_startsPower_of_stops none nofun (fun _ => stops_nil) stops_nil
    · rw [if_pos (by simpa using isMark)]
      refine .modify_bind (marked.missing ⟨rfl, isMark, [ch], [], marked, ?_, .inr ⟨rfl, rfl, .inl rfl⟩⟩)
      rcases isMark with rfl | rfl <;> decide
  | cons sign more =>
    by_cases signed : isSign sign = true
    · have reads := powerDigits_reads (some sign) (sign = 0x2D) isMark (by simpa using signed) nofun
        (by simp) (show c.Took src _ more _ by simpa using marked.skip)
      refine reads.enter fun met => took.current ?_
      rw [if_pos (by simpa using isMark)]
      refine .modify_bind (marked.current ?_)
      rw [if_pos (by simpa [isSign] using signed)]
      exact .modify_bind met
    · have unsigned : isSign sign = false := by simpa using signed
      have reads := powerDigits_reads none (sign = 0x2D) isMark nofun
        (fun _ => stops_cons unsigned) (by grind [isSign]) marked
      refine reads.enter fun met => took.current ?_
      rw [if_pos (by simpa using isMark)]
      refine .modify_bind (marked.current ?_)
      rw [if_neg (by simpa [isSign] using signed)]
      exact met

/-- What the scanner knows of the text when it has taken the whole digits of a decimal literal. -/
structure Leads (whole text : Text) : Prop where
  digits : ∀ ch ∈ whole, isDecimalDigit ch = true
  stops : Text.Stops isDecimalDigit text
  point : whole = [] → ∃ digit more, text = 0x2E :: digit :: more ∧ isDecimalDigit digit = true
  large : ∀ more, whole = 0x30 :: more → more ≠ [] → ∃ ch ∈ more, ch = 0x38 ∨ ch = 0x39
  unmarked : whole = [0x30] → ∀ radix : Radix, ∀ mark ∈ radix.marks, ∀ more, text = mark :: more →
    Text.Stops radix.isDigit more

theorem Leads.decimal_at (leads : Leads whole (tail part power ++ rest))
    (found : src.ahead c.index = whole ++ (tail part power ++ rest))
    (isPart : ∀ digits ∈ part, ∀ ch ∈ digits, isDecimalDigit ch = true)
    (isPower : ∀ p ∈ power, p.Valid) (stops : Text.Stops isDecimalDigit rest)
    (none : power = none → ¬ StartsPower rest ∧ (part = none → rest.head? ≠ some 0x2E)) :
    At src c (decimal whole part power) rest := by
  refine ⟨⟨leads.digits, isPart, isPower, fun isNil => ?_, leads.large⟩, by simpa [spelling] using found,
    stops, fun isNone => ⟨(none isNone).1, fun isNone' => ⟨(none isNone).2 isNone', ?_⟩⟩⟩
  · obtain ⟨digit, more, starts, isDigit⟩ := leads.point isNil
    cases part with
    | none =>
      cases power with
      | none => exact absurd (congrArg List.head? starts) ((none rfl).2 rfl)
      | some p =>
        have isMark := (List.cons.inj starts).1
        rcases (isPower p rfl).mark with isE | isE <;> rw [isE] at isMark <;> cases isMark
    | some digits =>
      refine ⟨digits, rfl, ?_⟩
      rintro rfl
      have outside := power_stops isPower (fun _ => stops) digit more (List.cons.inj starts).2
      rw [isDigit] at outside
      cases outside
  · subst isNone isNone'
    exact leads.unmarked

/-- The exponent part and the end of a decimal literal. -/
theorem power_decides (part : Option Text) (leads : Leads whole (tail part none ++ ch :: more))
    (isPart : ∀ digits ∈ part, ∀ ch ∈ digits, isDecimalDigit ch = true)
    (stops : Text.Stops isDecimalDigit (ch :: more)) (noPoint : part = none → ch ≠ 0x2E)
    (took : c.Took src (whole ++ tail part none) (ch :: more) d) :
    Decides src c (do
      let power ← Numeric.exponent src
      if isIdentifierStart (← current src) then throw .illegal
      else if whole ++ part.getD [] = [] then throw .noNumber
      else
        Numeric.finish src c.index (.double (Double.ofDecimal
          { digits := positional 10 (whole ++ part.getD [])
            exponent := power - (part.getD []).length }))) d := by
  obtain ⟨power, rest, spelled, isPower, noPower, ended, met⟩ := exponent_reads took
  have joined : tail part none ++ ch :: more = tail part power ++ rest := by simp [spelled, tail]
  have stops' : Text.Stops isDecimalDigit rest := by
    cases power with
    | none =>
      obtain rfl : ch :: more = rest := spelled
      exact stops
    | some p => exact ended nofun
  have at_n : At src c (decimal whole part power) rest := by
    refine (joined ▸ leads).decimal_at (by rw [took.found, append_assoc, joined]) isPart isPower
      stops' fun isNone => ⟨noPower isNone, fun isNone' => ?_⟩
    subst isNone
    obtain rfl : ch :: more = rest := spelled
    simpa using noPoint isNone'
  refine ⟨_, _, at_n, Meets.bind (met.mono (fun _ _ read => read) ?_) ?_⟩
  · rintro fault e ⟨rfl, isMark, extra, left, took', numeric, reason⟩
    obtain rfl : ch :: more = rest := spelled
    refine ⟨⟨extra, left, took', numeric, ?_⟩, ?_⟩
    · rintro rfl
      exact (reason.resolve_left nofun).2.1
    · rcases reason with rfl | ⟨rfl, -, short⟩
      · refine .inl ⟨rfl, ch, more, rfl, ?_⟩
        rcases isMark with rfl | rfl <;> decide
      · refine .inr ⟨rfl, fun looks => ?_⟩
        obtain ⟨notMark, notSign⟩ := looks.2 ch isMark
        rcases short with rfl | ⟨sign, isSign, rfl⟩
        · exact notMark rfl
        · exact notSign sign isSign rfl
  · rintro value e ⟨rfl, took'⟩
    have took' : c.Took src (decimal whole part power).spelling rest e := by
      simpa [spelling, tail] using took'
    cases rest with
    | nil =>
      refine took'.missing (refused_short took' ?_)
      cases power with
      | none => exact fun looks => looks.1 rfl
      | some p => exact absurd rfl
    | cons next rest =>
      have notDigit := stops' next rest rfl
      refine took'.current (close_meets took' (by simp [isGlued, notDigit]) fun free => ?_)
      rw [if_neg]
      · exact finish_returned took' free
      · intro isNil
        obtain ⟨isWhole, isPart⟩ := append_eq_nil_iff.mp isNil
        obtain ⟨digits, rfl, nonempty⟩ := at_n.valid.2.2.2.1 isWhole
        exact nonempty isPart

theorem short_decides (part : Option Text) {scanner : ScanM Token} (leads : Leads whole (tail part none))
    (isPart : ∀ digits ∈ part, ∀ ch ∈ digits, isDecimalDigit ch = true)
    (took : c.Took src (whole ++ tail part none) [] d)
    (missing : ∀ {returns : Token → Cursor → Prop} {fails : ScanFault → Cursor → Prop},
      fails .pastEnd d → Meets scanner d returns fails) : Decides src c scanner d := by
  have at_n : At src c (decimal whole part none) [] := by
    refine Leads.decimal_at (by rwa [append_nil]) (by rw [took.found, append_assoc]) isPart nofun
      stops_nil fun _ => ⟨?_, nofun⟩
    rintro ⟨power, -, left, starts⟩
    cases starts
  exact ⟨_, _, at_n, missing (refused_short took fun looks => looks.1 rfl)⟩

theorem Decides.enter {scanner before : ScanM Token} {e : Cursor} (decides : Decides src c scanner e)
    (enters : ∀ {returns fails}, Meets scanner e returns fails → Meets before d returns fails) :
    Decides src c before d := by
  obtain ⟨n, rest, at_n, met⟩ := decides
  exact ⟨n, rest, at_n, enters met⟩

theorem decimal_decides (leads : Leads whole text) (took : c.Took src whole text d) :
    Decides src c (Numeric.decimal src c.index whole) d := by
  cases text with
  | nil =>
    refine short_decides none leads nofun (by simpa [tail] using took) fun failed => ?_
    exact .into (took.missing failed)
  | cons ch more =>
    by_cases isPoint : ch = 0x2E
    · subst isPoint
      obtain ⟨digits, rest, rfl, all, stops⟩ := exists_span isDecimalDigit more
      have isPart : ∀ ds ∈ some digits, ∀ ch ∈ ds, isDecimalDigit ch = true := by simpa using all
      have taken := took.skip.append
      rw [show whole ++ [0x2E] ++ digits = whole ++ tail (some digits) none by simp [tail]] at taken
      -- After the digits the next character is looked at once and then again.
      have enter {f : Text → ScanM Token} (decides : Decides src c
          (current src >>= fun _ => f digits) _) : Decides src c (Numeric.fraction src >>= f) d :=
        decides.enter fun met => .into (took.current (.modify_bind
          (.into (run_text took.skip.ahead all stops
            (.into (Meets.bind_iff (f := fun _ => f digits).mp met))))))
      cases rest with
      | nil => exact enter (short_decides _ (by simpa [tail] using leads) isPart taken taken.missing)
      | cons next rest =>
        refine enter ((power_decides _ (by simpa [tail] using leads) isPart stops nofun taken).enter ?_)
        exact fun met => taken.current (by simpa using met)
    · refine (power_decides none leads nofun leads.stops (fun _ => isPoint)
        (by simpa [tail] using took)).enter fun met => ?_
      refine .into (took.current ?_)
      rw [if_neg isPoint]
      simpa using met

theorem exists_large (found : src.ahead index = digits ++ rest) (nonempty : digits ≠ [])
    (all : ∀ ch ∈ digits, isDecimalDigit ch = true) (stops : Text.Stops isDecimalDigit rest)
    (notOld : ∀ ch more, digits = ch :: more → isOctalDigit ch = true →
      Numeric.isOldOctal src index = false) : ∃ ch ∈ digits, ch = 0x38 ∨ ch = 0x39 := by
  refine Classical.byContradiction fun none => ?_
  have octal (ch : CodePoint) (member : ch ∈ digits) : isOctalDigit ch = true := by
    have isDigit := all ch member
    have small : ch ≠ 0x38 ∧ ch ≠ 0x39 := not_or.mp fun large => none ⟨ch, member, large⟩
    simp only [isOctalDigit, isDecimalDigit] at isDigit ⊢
    grind
  obtain ⟨ch, more, rfl⟩ := exists_cons_of_ne_nil nonempty
  have old := (isOldOctal_iff found (fun digit member => octal digit (mem_cons_of_mem ch member))
    (stops.imp fun _ => isDecimalDigit_of_octal)).mpr stops
  rw [notOld ch more rfl (octal ch mem_cons_self)] at old
  cases old

theorem fromDigit_decides {first : CodePoint} (isDigit : isDecimalDigit first = true)
    (took : c.Took src [first] text d) : Decides src c (Numeric.fromDigit src c.index first) d := by
  cases text with
  | nil =>
    have leads : Leads [first] (tail none none) := by
      refine ⟨by simpa using isDigit, stops_nil, nofun, ?_, fun _ _ _ _ _ => nofun⟩
      rintro more ⟨⟩ nonempty
      exact absurd rfl nonempty
    exact short_decides none leads nofun took took.missing
  | cons ch more =>
    by_cases isHex : first = 0x30 ∧ ch ∈ Radix.hexadecimal.marks
    · obtain ⟨rfl, isMark⟩ := isHex
      refine (hex_decides isMark took.skip).enter fun met => took.current ?_
      rw [if_pos (by simpa [Radix.marks] using isMark)]
      exact .modify_bind met
    by_cases isBinary : first = 0x30 ∧ ch ∈ Radix.binary.marks
    · obtain ⟨rfl, isMark⟩ := isBinary
      refine (binary_decides isMark took.skip).enter fun met => took.current ?_
      rw [if_neg (by simpa [Radix.marks] using isHex), if_pos (by simpa [Radix.marks] using isMark)]
      exact .modify_bind met
    by_cases isOctal : first = 0x30 ∧ ch ∈ Radix.octal.marks
    · obtain ⟨rfl, isMark⟩ := isOctal
      refine (octal_decides isMark took).enter fun met => took.current ?_
      rw [if_neg (by simpa [Radix.marks] using isHex), if_neg (by simpa [Radix.marks] using isBinary),
        if_pos (by simpa [Radix.marks] using isMark)]
      exact met
    -- From here on the literal has no mark.
    have enter {scanner : ScanM Token} {e : Cursor} (decides : Decides src c scanner e)
        (goal : ∀ {returns fails}, Meets scanner e returns fails → Meets (do
          if first = 0x30 && isOctalDigit ch && Numeric.isOldOctal src (← get).index then
            Numeric.octal src true c.index
          else do
            let rest ← run src isDecimalDigit
            let _ ← current src
            Numeric.decimal src c.index (first :: rest)) d returns fails) :
        Decides src c (Numeric.fromDigit src c.index first) d := by
      refine decides.enter fun met => took.current ?_
      rw [if_neg (by simpa [Radix.marks] using isHex), if_neg (by simpa [Radix.marks] using isBinary),
        if_neg (by simpa [Radix.marks] using isOctal)]
      exact goal met
    by_cases isOld : first = 0x30 ∧ isOctalDigit ch = true ∧ Numeric.isOldOctal src d.index = true
    · obtain ⟨rfl, isDigit, old⟩ := isOld
      refine enter (oldOctal_decides isDigit took old) fun met => .get_bind ?_
      rw [if_pos (by simp [isDigit, old])]
      exact met
    · obtain ⟨digits, rest, spelled, all, stops⟩ := exists_span isDecimalDigit (ch :: more)
      rw [spelled] at took
      have leads : Leads (first :: digits) rest := by
        refine ⟨by simpa [isDigit] using all, stops, nofun, ?_, ?_⟩
        · rintro _ ⟨⟩ nonempty
          refine exists_large took.ahead nonempty all stops ?_
          rintro ch' others rfl isOctal'
          obtain rfl := (List.cons.inj spelled).1
          exact Bool.eq_false_iff.mpr fun old => isOld ⟨rfl, isOctal', old⟩
        · rintro ⟨⟩ radix mark isMark others starts
          obtain rfl : ch = mark := (List.cons.inj (spelled.trans starts)).1
          cases radix with
          | hexadecimal => exact absurd ⟨rfl, isMark⟩ isHex
          | binary => exact absurd ⟨rfl, isMark⟩ isBinary
          | octal => exact absurd ⟨rfl, isMark⟩ isOctal
      have taken := took.append
      have decides : Decides src c (current src >>= fun _ =>
          Numeric.decimal src c.index (first :: digits))
          { d with index := d.index + digits.length } := by
        cases rest with
        | nil =>
          exact short_decides none leads nofun (by simpa [tail] using taken) taken.missing
        | cons next rest => exact (decimal_decides leads taken).enter fun met => taken.current met
      refine enter decides fun met => .get_bind ?_
      rw [if_neg (by simpa using isOld)]
      exact .into (run_text took.ahead all stops met)

theorem token_decides (starts : Starts (src.ahead c.index)) : Decides src c (Numeric.token src) c := by
  have start : c.Took src [] (src.ahead c.index) c := .start
  generalize src.ahead c.index = text at starts start
  cases starts with
  | digit isDigit =>
    refine (fromDigit_decides isDigit start.skip).enter fun met => .get_bind (start.current ?_)
    rw [if_neg (by rintro rfl; cases isDigit), if_pos isDigit]
    exact .modify_bind met
  | @point digit more isDigit =>
    have leads : Leads [] (0x2E :: digit :: more) :=
      ⟨nofun, stops_cons rfl, fun _ => ⟨digit, more, rfl, isDigit⟩, nofun, nofun⟩
    refine (decimal_decides leads start).enter fun met => .get_bind (start.current ?_)
    rw [if_pos rfl]
    exact met

def Followed (n : Numeral) (next : CodePoint) : Prop :=
  isGlued next = false ∧ ∀ whole, n = decimal whole none none → next ≠ 0x2E

theorem Radix.isGlued_of_digit (isDigit : radix.isDigit ch = true) : isGlued ch = true := by
  have small : ch < 0x67 := by
    cases radix <;> simp only [Radix.isDigit, isHexDigit, isBinaryDigit, isOctalDigit, isDecimalDigit] at isDigit <;> grind
  have all : ∀ radix : Radix, ∀ ch < 0x67, radix.isDigit ch = true → isGlued ch = true := by
    rintro ⟨⟩ <;> decide
  exact all radix ch small isDigit

theorem Followed.ends (followed : n.Followed ch) : n.Ends (ch :: more) := by
  obtain ⟨free, notPoint⟩ := followed
  have notDigit : isDecimalDigit ch = false := by
    simp only [isGlued, Bool.or_eq_false_iff] at free
    exact free.2
  cases n with
  | marked radix mark digits =>
    exact stops_cons (Bool.eq_false_iff.mpr fun isDigit => by
      rw [Radix.isGlued_of_digit isDigit] at free
      cases free)
  | oldOctal digits => exact stops_cons notDigit
  | decimal whole part power =>
    refine ⟨stops_cons notDigit, ?_⟩
    rintro rfl
    refine ⟨not_startsPower ⟨?_, ?_⟩, ?_⟩
    · rintro rfl
      exact absurd free (by decide)
    · rintro rfl
      exact absurd free (by decide)
    · rintro rfl
      refine ⟨by simpa using notPoint whole rfl, ?_⟩
      rintro - radix _ isMark _ ⟨⟩
      simp [isGlued, (radix.mark_other ch isMark).2.1] at free

theorem Followed.looks (followed : n.Followed ch) : n.Looks (ch :: more) := by
  cases n with
  | decimal whole part power =>
    cases power with
    | some p => exact nofun
    | none =>
      refine ⟨nofun, fun mark isMark => ?_⟩
      have other : ch ≠ mark := by
        rintro rfl
        rcases isMark with rfl | rfl <;> exact absurd followed.1 (by decide)
      exact ⟨fun same => other (List.cons.inj same).1, fun sign _ same => other (List.cons.inj same).1⟩
  | _ => exact nofun

theorem starts_spelling (valid : n.Valid) (more : Text) : Starts (n.spelling ++ more) := by
  cases n with
  | marked radix mark digits => exact .digit rfl
  | oldOctal digits => exact .digit rfl
  | decimal whole part power =>
    cases whole with
    | cons ch whole => exact .digit (valid.1 ch (by simp))
    | nil =>
      obtain ⟨digits, rfl, nonempty⟩ := valid.2.2.2.1 rfl
      obtain ⟨digit, others, rfl⟩ := exists_cons_of_ne_nil nonempty
      exact .point (valid.2.1 _ rfl digit (by simp))

theorem spelling_ne_nil (valid : n.Valid) : n.spelling ≠ [] := by
  intro isNil
  have starts := starts_spelling valid []
  rw [isNil] at starts
  cases starts

/-- A literal is read if a character that may follow it does. -/
theorem token_reads (valid : n.Valid) (followed : n.Followed ch)
    (found : src.ahead c.index = n.spelling ++ ch :: more) :
    Numeric.token src c = .ok (n.token c) { c with index := c.index + n.spelling.length } := by
  obtain ⟨m, rest, at_m, met⟩ := token_decides (found ▸ starts_spelling valid (ch :: more))
  obtain rfl : n = m := by
    rcases eq_or_shorter at_m.valid valid at_m.ends (at_m.found.symm.trans found) with same | shorter
    · exact same
    · rcases eq_or_shorter valid at_m.valid followed.ends (found.symm.trans at_m.found) with same | longer
      · exact same.symm
      · omega
  obtain rfl : rest = ch :: more := append_cancel_left (at_m.found.symm.trans found)
  cases run : Numeric.token src c with
  | ok token d =>
    obtain ⟨rfl, took, -⟩ := met.of_ok run
    rw [took.cursor]
  | error fault d =>
    rcases (met.of_error run).reason with ⟨-, _, _, ⟨⟩, glued⟩ | ⟨-, short⟩
    · rw [followed.1] at glued
      cases glued
    · exact absurd followed.looks short

theorem At.blank (at_n : At src c n rest) {length : Nat} (ends : Sealed src length) : 0x20 ∈ rest := by
  have foreign : ∀ ch ∈ Parser.sentinel, isDecimalDigit ch = false ∧ ch ≠ 0x2E := by decide
  have inCode : c.index < length := by
    have starts := starts_spelling at_n.valid rest
    rw [← at_n.found] at starts
    cases found : src.ahead c.index with
    | nil =>
      rw [found] at starts
      cases starts
    | cons ch more =>
      refine ends.inCode (Source.getElem?_head found) fun member => ?_
      rw [found] at starts
      cases starts with
      | digit isDigit =>
        rw [(foreign ch member).1] at isDigit
        cases isDigit
      | point isDigit => exact (foreign 0x2E member).2 rfl
  have blank := src.getElem?_ahead c.index (length - c.index)
  rw [Nat.add_sub_cancel' (Nat.le_of_lt inCode), ends.blank, at_n.found] at blank
  refine (mem_append.mp (mem_of_getElem? blank.symm)).resolve_left fun member => ?_
  cases isNumeric_spelling at_n.valid _ member

theorem looks_of_blank (blank : 0x20 ∈ rest) : n.Looks rest := by
  have nonempty : rest ≠ [] := ne_nil_of_mem blank
  cases n with
  | decimal whole part power =>
    cases power with
    | some p => exact nonempty
    | none =>
      refine ⟨nonempty, fun mark isMark => ⟨?_, fun sign isSign => ?_⟩⟩
      · rintro rfl
        rcases isMark with rfl | rfl <;> simp at blank
      · rintro rfl
        rcases isMark with rfl | rfl <;> rcases isSign with rfl | rfl <;> simp at blank
  | _ => exact nonempty

theorem token_followed {length : Nat} (ends : Sealed src length) (starts : Starts (src.ahead c.index)) :
    Meets (Numeric.token src) c (fun token d => ∃ (n : Numeral) (next : CodePoint) (rest : Text),
      n.Valid ∧ n.Followed next ∧ c.Took src n.spelling (next :: rest) d ∧ token = n.token c)
      anyFault := by
  obtain ⟨n, rest, at_n, met⟩ := token_decides starts
  refine met.mono ?_ fun _ _ _ => trivial
  rintro token d ⟨rfl, took, stops⟩
  obtain ⟨next, others, rfl⟩ := exists_cons_of_ne_nil (ne_nil_of_mem (at_n.blank ends))
  refine ⟨n, next, others, at_n.valid, ⟨stops next others rfl, ?_⟩, took, rfl⟩
  rintro whole rfl
  simpa using ((at_n.ends.2 rfl).2 rfl).1

/-- The scanner takes the longest literal and stops right behind it, unless an identifier or a digit is
glued to it. The sentinel leaves room enough to see that. -/
theorem token_takes_longest (src : Source) (c : Cursor) (starts : Starts (src.ahead c.index)) :
    ∃ n : Numeral, n.Valid ∧ n.spelling <+: src.ahead c.index ∧
      (∀ m : Numeral, m.Valid → m.spelling <+: src.ahead c.index →
        m.spelling.length ≤ n.spelling.length) ∧
      (∀ length, Sealed src length → ∃ next rest,
        src.ahead c.index = n.spelling ++ next :: rest ∧ n.Looks (next :: rest)) ∧
      ∀ next rest, src.ahead c.index = n.spelling ++ next :: rest → n.Looks (next :: rest) →
        if isIdentifierStart next || isDecimalDigit next then
          ∃ d, Numeric.token src c = .error .illegal d
        else
          Numeric.token src c = .ok (n.token c) { c with index := c.index + n.spelling.length } := by
  obtain ⟨n, rest, at_n, met⟩ := token_decides starts
  refine ⟨n, at_n.valid, ⟨rest, at_n.found.symm⟩, ?_, fun length ends => ?_, ?_⟩
  · rintro m valid ⟨rest', same⟩
    rcases eq_or_shorter at_n.valid valid at_n.ends (at_n.found.symm.trans same.symm) with rfl | shorter
    · exact Nat.le_refl _
    · exact Nat.le_of_lt shorter
  · have blank := at_n.blank ends
    obtain ⟨next, others, rfl⟩ := exists_cons_of_ne_nil (ne_nil_of_mem blank)
    exact ⟨next, others, at_n.found, looks_of_blank blank⟩
  · intro next others found looks
    obtain rfl : rest = next :: others := append_cancel_left (at_n.found.symm.trans found)
    cases run : Numeric.token src c with
    | ok token d =>
      obtain ⟨rfl, took, stops⟩ := met.of_ok run
      rw [if_neg (by simpa [isGlued] using stops next others rfl), took.cursor]
    | error fault d =>
      rcases (met.of_error run).reason with ⟨rfl, _, _, ⟨⟩, glued⟩ | ⟨-, short⟩
      · rw [if_pos (by simpa [isGlued] using glued)]
        exact ⟨d, rfl⟩
      · exact absurd looks short

/-- Digits after a zero with a nine among them, a fraction and an exponent make one literal. -/
theorem token_takes_longest_nine : ∃ n : Numeral, n.Valid ∧ n.spelling.length = 7 ∧
      Numeric.token (Source.ofText (Text.ofString "079.5e1" ++ Parser.sentinel)) ⟨⟨0, 1, 0⟩, none, none⟩ =
        .ok (n.token ⟨⟨0, 1, 0⟩, none, none⟩) ⟨⟨7, 1, 0⟩, none, none⟩ := by
  have reads : (match Numeric.token (Source.ofText (Text.ofString "079.5e1" ++ Parser.sentinel))
      ⟨⟨0, 1, 0⟩, none, none⟩ with | .ok _ d => d.index == 7 | .error _ _ => false) = true := by
    decide
  obtain ⟨n, valid, -, -, room, run⟩ := token_takes_longest
    (Source.ofText (Text.ofString "079.5e1" ++ Parser.sentinel)) ⟨⟨0, 1, 0⟩, none, none⟩
    (.digit (show isDecimalDigit 0x30 = true by decide))
  obtain ⟨next, rest, found, looks⟩ := room 7 (.ofText (Text.ofString "079.5e1"))
  have answer := run next rest found looks
  split at answer
  · obtain ⟨d, fails⟩ := answer
    rw [fails] at reads
    cases reads
  · rw [answer] at reads
    have length : n.spelling.length = 7 := by simpa using reads
    exact ⟨n, valid, length, by rw [answer, length]⟩

end Numeral

end EcmaScript
