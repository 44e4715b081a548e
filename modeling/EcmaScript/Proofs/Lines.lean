import EcmaScript.Proofs.Scanning

/-!
Lines of a source. A line ends with a line feed, with a carriage return, with both in this order, or
with one of the two separators. The registers of a mark are exact when they agree with the text
before it. They stay exact over a character that ends no line, and over a whole line break when the
number goes up by one and the line starts behind the break.
-/

namespace EcmaScript

open Scan Character List Text

namespace Text

/-- The number of line breaks; a carriage return and the line feed after it are one. -/
def lineBreaks : Text → Nat
  | [] => 0
  | 0x0D :: 0x0A :: rest => lineBreaks rest + 1
  | ch :: rest => lineBreaks rest + if isLineTerminator ch then 1 else 0

/-- Where the last line starts: behind the last line terminator, or at the beginning. -/
def lastLineStart (t : Text) : Nat :=
  t.length - (t.reverse.takeWhile fun ch => !isLineTerminator ch).length

/-- A character adds a line break if it ends a line, unless it completes a pair. -/
theorem lineBreaks_concat (t : Text) (ch : CodePoint) : lineBreaks (t ++ [ch]) = lineBreaks t +
      if isLineTerminator ch ∧ ¬(t.getLast? = some 0x0D ∧ ch = 0x0A) then 1 else 0 := by
  fun_induction lineBreaks t with
  | case1 => simp [lineBreaks]
  | case2 rest ih =>
    have last : (0x0D :: 0x0A :: rest : Text).getLast? = some 0x0D ↔ rest.getLast? = some 0x0D := by
      cases rest with
      | nil => simp
      | cons first more => simp [List.getLast?_cons_cons]
    simp only [cons_append, lineBreaks, last, ih]
    omega
  | case3 first rest unpaired ih =>
    cases rest with
    | nil =>
      -- The only place where the new character can complete a pair.
      by_cases pair : first = 0x0D ∧ ch = 0x0A
      · obtain ⟨rfl, rfl⟩ := pair
        decide
      · have single : lineBreaks ([first] ++ [ch]) =
            lineBreaks [ch] + if isLineTerminator first then 1 else 0 := by
          rw [singleton_append, lineBreaks]
          intro rest isReturn isFeed
          exact pair ⟨isReturn, (List.cons.inj isFeed).1⟩
        simp only [single, lineBreaks, List.getLast?_singleton, Option.some.injEq, pair]
        simp [Nat.add_comm]
    | cons second more =>
      have unpaired' : ∀ rest, first = 0x0D → second :: more ++ [ch] = 0x0A :: rest → False := by
        intro rest isReturn isFeed
        exact unpaired more isReturn (by rw [(List.cons.inj isFeed).1])
      have split : lineBreaks (first :: (second :: more ++ [ch])) =
          lineBreaks (second :: more ++ [ch]) + if isLineTerminator first then 1 else 0 := by
        rw [lineBreaks]
        exact unpaired'
      rw [cons_append, split, ih, List.getLast?_cons_cons]
      omega

theorem lastLineStart_concat (t : Text) (ch : CodePoint) : lastLineStart (t ++ [ch]) =
      if isLineTerminator ch then t.length + 1 else lastLineStart t := by
  unfold lastLineStart
  by_cases ends : isLineTerminator ch = true
  · simp [ends]
  · simp only [reverse_append, reverse_singleton, singleton_append, length_append,
      length_singleton, ends]
    simp [ends]

end Text

/-- A line break stands between `i` and `j`. A carriage return takes the line feed after it along. -/
inductive LineBreak (src : Source) (i : Nat) : Nat → Prop
  | pair (isReturn : src[i]? = some 0x0D) (isFeed : src[i + 1]? = some 0x0A) :
    LineBreak src i (i + 2)
  | single {ch : CodePoint} (found : src[i]? = some ch) (ends : isLineTerminator ch = true)
    (alone : ch = 0x0D → src[i + 1]? ≠ some 0x0A) : LineBreak src i (i + 1)

/-- The registers agree with the text before the mark, which does not stand inside a pair. -/
structure Mark.Exact (src : Source) (mark : Mark) : Prop where
  lineNumber : mark.lineNumber = 1 + (src.slice 0 mark.index).lineBreaks
  lineStart : mark.lineStart = (src.slice 0 mark.index).lastLineStart
  whole : (src.slice 0 mark.index).getLast? = some 0x0D → src[mark.index]? ≠ some 0x0A

section

variable {src : Source} {mark : Mark} {i j : Nat} {ch : CodePoint}

theorem slice_succ {start : Nat} (before : start ≤ i) (found : src[i]? = some ch) :
    src.slice start (i + 1) = src.slice start i ++ [ch] := by
  apply ext_getElem?
  intro k
  have inside := (Array.getElem?_eq_some_iff.mp found).1
  have length : (src.slice start i).length = i - start := by
    rw [Layout.slice_length]
    omega
  by_cases early : start + k < i
  · rw [slice_getElem? (by omega), List.getElem?_append_left (by omega), slice_getElem? early]
  · rw [List.getElem?_append_right (by omega), length]
    by_cases here : start + k = i
    · rw [slice_getElem? (by omega), here, found, show k - (i - start) = 0 by omega]
      rfl
    · rw [List.getElem?_eq_none, List.getElem?_eq_none]
      · simp
        omega
      · rw [Layout.slice_length]
        omega

theorem LineBreak.lt (ends : LineBreak src i j) : i < j := by
  cases ends
  · omega
  · omega

theorem LineBreak.le_size (ends : LineBreak src i j) : j ≤ src.size := by
  cases ends with
  | pair isReturn isFeed => exact (Array.getElem?_eq_some_iff.mp isFeed).1
  | single found ends alone => exact (Array.getElem?_eq_some_iff.mp found).1

namespace Mark.Exact

/-- A character that ends no line changes nothing. -/
theorem step (exact : mark.Exact src) (found : src[mark.index]? = some ch)
    (inLine : isLineTerminator ch = false) : Exact src { mark with index := mark.index + 1 } := by
  have grown := slice_succ (Nat.zero_le _) found
  constructor
  · simp [grown, lineBreaks_concat, inLine, exact.lineNumber]
  · simp [grown, lastLineStart_concat, inLine, exact.lineStart]
  · intro isReturn
    simp only [grown, List.getLast?_append, List.getLast?_singleton, Option.some_or,
      Option.some.injEq] at isReturn
    subst isReturn
    cases inLine

theorem lineBreak (exact : mark.Exact src) (ends : LineBreak src mark.index j) :
    Exact src { index := j, lineNumber := mark.lineNumber + 1, lineStart := j } := by
  have length (inside : mark.index < src.size) : (src.slice 0 mark.index).length = mark.index := by
    rw [Layout.slice_length]
    omega
  cases ends with
  | pair isReturn isFeed =>
    have grown : src.slice 0 (mark.index + 2) = src.slice 0 mark.index ++ [0x0D] ++ [0x0A] := by
      rw [slice_succ (Nat.zero_le _) isFeed, slice_succ (Nat.zero_le _) isReturn]
    have count : (src.slice 0 (mark.index + 2)).lineBreaks = (src.slice 0 mark.index).lineBreaks + 1 := by
      rw [grown, lineBreaks_concat, lineBreaks_concat]
      simp [show isLineTerminator 0x0D = true by decide]
    have start : (src.slice 0 (mark.index + 2)).lastLineStart = mark.index + 2 := by
      rw [grown, lastLineStart_concat, if_pos (by decide), length_append,
        length (Array.getElem?_eq_some_iff.mp isReturn).1]
      rfl
    refine ⟨?_, start.symm, fun isReturn' => ?_⟩
    · rw [count, exact.lineNumber]
      rfl
    · simp [grown] at isReturn'
  | @single ch found ends alone =>
    have grown := slice_succ (Nat.zero_le _) found
    have counted : ¬((src.slice 0 mark.index).getLast? = some 0x0D ∧ ch = 0x0A) := by
      rintro ⟨isReturn, rfl⟩
      exact exact.whole isReturn found
    have count : (src.slice 0 (mark.index + 1)).lineBreaks = (src.slice 0 mark.index).lineBreaks + 1 := by
      rw [grown, lineBreaks_concat, if_pos ⟨ends, counted⟩]
    have start : (src.slice 0 (mark.index + 1)).lastLineStart = mark.index + 1 := by
      rw [grown, lastLineStart_concat, if_pos ends, length (Array.getElem?_eq_some_iff.mp found).1]
    refine ⟨?_, start.symm, fun isReturn => alone ?_⟩
    · rw [count, exact.lineNumber]
      rfl
    · simpa [grown] using isReturn

end Mark.Exact

end

end EcmaScript
