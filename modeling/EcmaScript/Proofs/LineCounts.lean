import EcmaScript.Proofs.Tracking

/-!
Line numbers in range. A scanner that fails leaves the cursor in the middle of things, where its registers
need not be exact, yet the number of its line is shown in complaints. It is kept in range by a count: the
lines so far and the line breaks that are still ahead are together never more than the source has. Moving
forward keeps the count, and so does counting a line for a line break that was passed. Every scanner keeps
it, whether it answers or fails; only where the source ends inside of a line break the count may be off,
and such a fault names no line.
-/

namespace EcmaScript

open Scan Character

namespace Text

theorem lineBreaks_cons (ch : CodePoint) (rest : Text) (unpaired : ch = 0x0D → rest.head? ≠ some 0x0A) :
    lineBreaks (ch :: rest) = lineBreaks rest + if isLineTerminator ch then 1 else 0 := by
  rw [lineBreaks]
  rintro more isReturn rfl
  exact unpaired isReturn rfl

theorem lineBreaks_append (t : Text) {s : Text} (unpaired : s.head? ≠ some 0x0A) :
    lineBreaks (t ++ s) = lineBreaks t + lineBreaks s := by
  fun_induction lineBreaks t with
  | case1 => simp
  | case2 rest ih =>
    simp only [List.cons_append, lineBreaks, ih]
    omega
  | case3 ch rest alone ih =>
    have apart : ch = 0x0D → (rest ++ s).head? ≠ some 0x0A := by
      intro isReturn
      cases rest with
      | nil => exact unpaired
      | cons second more =>
        intro isFeed
        exact alone more isReturn (by rw [Option.some.inj isFeed])
    rw [List.cons_append, lineBreaks_cons ch _ apart, ih]
    omega

theorem lineBreaks_tail_le (t : Text) : lineBreaks t.tail ≤ lineBreaks t := by
  fun_cases lineBreaks t with
  | case1 => exact Nat.le_refl _
  | case2 rest =>
    have feed := lineBreaks_cons 0x0A rest (by simp)
    exact Nat.le_of_eq (feed.trans (by simp [isLineTerminator, lineTerminators]))
  | case3 ch rest alone => exact Nat.le_add_right _ _

theorem lineBreaks_drop_le (t : Text) (n : Nat) : lineBreaks (t.drop n) ≤ lineBreaks t := by
  induction n with
  | zero => exact Nat.le_refl _
  | succ n ih =>
    rw [← List.tail_drop]
    exact Nat.le_trans (lineBreaks_tail_le _) ih

end Text

/-- The lines counted so far and the line breaks ahead are no more than there are. -/
structure Mark.Counted (src : Source) (mark : Mark) : Prop where
  positive : 1 ≤ mark.lineNumber
  ahead : mark.lineNumber + Text.lineBreaks (src.toList.drop mark.index) ≤ 1 + Text.lineBreaks src.toList

/-- The number of a line of the source. -/
def Source.HasLine (src : Source) (n : Nat) : Prop :=
  1 ≤ n ∧ n ≤ 1 + Text.lineBreaks src.toList

section

variable {src : Source} {mark : Mark} {c d : Cursor} {i j : Nat} {ch : CodePoint}

namespace Mark.Counted

theorem hasLine (counted : mark.Counted src) : src.HasLine mark.lineNumber :=
  ⟨counted.positive, Nat.le_trans (Nat.le_add_right _ _) counted.ahead⟩

theorem forward (counted : mark.Counted src) {other : Mark} (behind : mark.index ≤ other.index)
    (same : other.lineNumber = mark.lineNumber) : other.Counted src := by
  have fewer := Text.lineBreaks_drop_le (src.toList.drop mark.index) (other.index - mark.index)
  rw [List.drop_drop, Nat.add_sub_cancel' behind] at fewer
  have ahead := counted.ahead
  constructor
  · exact same ▸ counted.positive
  · omega

end Mark.Counted

theorem drop_eq_cons (found : src[i]? = some ch) : src.toList.drop i = ch :: src.toList.drop (i + 1) :=
  Source.ahead_of_found found

/-- Over a line break there is one line break less ahead. -/
theorem LineBreak.ahead (ends : LineBreak src i j) : Text.lineBreaks (src.toList.drop i) =
    Text.lineBreaks (src.toList.drop j) + 1 := by
  cases ends with
  | pair isReturn isFeed =>
    rw [drop_eq_cons isReturn, drop_eq_cons isFeed]
    rfl
  | @single ch found ends alone =>
    have unpaired : ch = 0x0D → (src.toList.drop (i + 1)).head? ≠ some 0x0A := by
      intro isReturn
      rw [List.head?_drop, Array.getElem?_toList]
      exact alone isReturn
    rw [drop_eq_cons found, Text.lineBreaks_cons _ _ unpaired, if_pos ends]

theorem Mark.Counted.lineBreak (counted : mark.Counted src) (ends : LineBreak src mark.index j)
    {other : Mark} (index : other.index = j) (number : other.lineNumber = mark.lineNumber + 1) :
    other.Counted src := by
  have fewer := ends.ahead
  have ahead := counted.ahead
  constructor
  · omega
  · rw [index]
    omega

/-! ### Scanners that count -/

/-- A scanner that fails keeps the count, unless it runs past the end of the source. -/
def Stopped (src : Source) (fault : ScanFault) (c : Cursor) : Prop :=
  fault = .pastEnd ∨ c.toMark.Counted src

theorem Cursor.Passes.counted (passes : c.Passes src d) (counted : c.toMark.Counted src) :
    d.toMark.Counted src := by
  induction passes with
  | refl => exact counted
  | step passes found inLine ih => exact ih.forward (Nat.le_succ _) rfl
  | lineBreak passes ends ih => exact ih.lineBreak ends rfl rfl

theorem Cursor.Strays.stopped {fault : ScanFault} (strays : c.Strays src fault d)
    (counted : c.toMark.Counted src) : Stopped src fault d := by
  refine strays.imp_right ?_
  rintro ⟨e, passes, behind, sameLine⟩
  exact (passes.counted counted).forward behind sameLine

theorem RegExp.scan_counts (counted : c.toMark.Counted src) :
    Meets (scan src) c (fun _ d => d.toMark.Counted src) (Stopped src) :=
  scan_along.mono (fun _ _ met => met.1.passes.counted counted) fun _ _ failed =>
    (failed.strays .refl).stopped counted

theorem Lexer.token_counts (strict : Bool) (lineStart : Option Nat) (counted : c.toMark.Counted src) :
    Meets (token src strict lineStart) c
      (fun token d => src.HasLine token.lineNumber ∧ d.toMark.Counted src) (Stopped src) := by
  refine (token_passing strict lineStart).mono (fun token d passed => ?_) fun _ _ strays => strays.stopped counted
  obtain ⟨e, passes, same, -⟩ := passed.passes
  have counted' : d.toMark.Counted src := same ▸ passes.counted counted
  rcases passed.line with line | line
  · exact ⟨line ▸ counted.hasLine, counted'⟩
  · exact ⟨line ▸ counted'.hasLine, counted'⟩

namespace Layout

theorem carried_counted : Carried src fun d => d.toMark.Counted src :=
  ⟨fun counted _ _ => counted.forward (Nat.le_succ _) rfl, fun counted ends => counted.lineBreak ends rfl rfl⟩

/-- Layout has no escapes to complain about, the one complaint that does not show the line of the cursor. -/
theorem skipAll_counts (counted : c.toMark.Counted src) :
    Meets (skipAll src) c (fun _ d => d.toMark.Counted src)
      fun fault d => Stopped src fault d ∧ fault ≠ .templateOctal := by
  by_cases bound : c.index ≤ src.size
  · refine (skipAll_carries carried_counted bound counted).mono (fun _ _ met => met.2.1) fun fault d failed => ?_
    rcases failed with ⟨rfl, counted⟩ | ⟨rfl, -⟩
    · exact ⟨.inr counted, nofun⟩
    · exact ⟨.inl rfl, nofun⟩
  · refine .modify_bind (.get_bind ?_)
    refine Meets.iterate_keeps (fun _ d => src.size < d.index ∧ d.toMark.Counted src)
      (fun _ _ held => ⟨.inr held.2, nofun⟩) ?_ _ _ _ ⟨Nat.lt_of_not_le bound, counted⟩
    rintro _ d ⟨past, counted⟩
    exact atEnd_ite (fun _ => counted) fun inside => absurd inside (Nat.not_lt.mpr (Nat.le_of_lt past))

end Layout

end

end EcmaScript
