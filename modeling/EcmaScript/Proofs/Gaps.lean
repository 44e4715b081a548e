import EcmaScript.Proofs.Lines

/-!
The layout between two tokens. A gap is a sequence of pieces: a blank, a line break, or a comment.
Comments of one line end with the line or the source, block comments with the first closing mark.
A closing markup comment is one only at the start of the source or after a line break or a comment
of two slashes in the same gap. Skipping layout passes a gap, keeps the line registers exact and
notes whether the gap holds a line terminator.
-/

namespace EcmaScript

open Scan Character

namespace Layout

/-- The characters from `i` up to `j` are there, and none of them ends a line. -/
def InLine (src : Source) (i j : Nat) : Prop :=
  i ≤ j ∧ ∀ k, i ≤ k → k < j → ∃ ch, src[k]? = some ch ∧ isLineTerminator ch = false

/-- The rest of a line from `i` on ends at `j`, behind the line break or at the end of the source. -/
inductive LineRest (src : Source) (i : Nat) : Nat → Prop
  | atEnd (inLine : InLine src i src.size) : LineRest src i src.size
  | atBreak {m j : Nat} (inLine : InLine src i m) (ends : LineBreak src m j) : LineRest src i j

/-- A block comment whose opening ends at `i` is closed by the first closing mark, at `m`. -/
inductive BlockRest (src : Source) (i : Nat) : Nat → Prop
  | closed {m : Nat} (after : i ≤ m) (star : src[m]? = some 0x2A) (slash : src[m + 1]? = some 0x2F)
    (first : ∀ k, i ≤ k → k < m → ¬(src[k]? = some 0x2A ∧ src[k + 1]? = some 0x2F)) :
    BlockRest src i (m + 2)

/-- A piece of layout from one index to another. The two flags tell whether a closing markup comment
may start before and after it. -/
inductive IsPiece (src : Source) : Bool → Nat → Bool → Nat → Prop
  | blank {fresh : Bool} {i : Nat} {ch : CodePoint} (found : src[i]? = some ch)
    (isBlank : isWhiteSpace ch = true) : IsPiece src fresh i fresh (i + 1)
  | lineBreak {fresh : Bool} {i j : Nat} (ends : LineBreak src i j) : IsPiece src fresh i true j
  | lineComment {fresh : Bool} {i j : Nat} (opens : src.slice i (i + 2) = Text.ofString "//")
    (rest : LineRest src (i + 2) j) : IsPiece src fresh i true j
  | blockComment {fresh : Bool} {i j : Nat} (opens : src.slice i (i + 2) = Text.ofString "/*")
    (rest : BlockRest src (i + 2) j) : IsPiece src fresh i fresh j
  | openingComment {fresh : Bool} {i j : Nat} (opens : src.slice i (i + 4) = Text.ofString "<!--")
    (rest : LineRest src (i + 4) j) : IsPiece src fresh i fresh j
  | closingComment {i j : Nat} (opens : src.slice i (i + 3) = Text.ofString "-->")
    (rest : LineRest src (i + 3) j) : IsPiece src true i true j

inductive Pieces (src : Source) (fresh : Bool) (i : Nat) : Bool → Nat → Prop
  | none : Pieces src fresh i fresh i
  | more {fresh' fresh'' : Bool} {j k : Nat} (before : Pieces src fresh i fresh' j)
    (last : IsPiece src fresh' j fresh'' k) : Pieces src fresh i fresh'' k

/-- The gap from `i` to `j`. A closing markup comment may stand at the start of the source. -/
def Gap (src : Source) (i j : Nat) : Prop :=
  ∃ fresh, Pieces src (i = 0) i fresh j

end Layout

variable {i j : Nat}

/-- What holds at `i` and is carried over every character of the line holds at `j`. -/
theorem Layout.InLine.induct {src : Source} (inLine : Layout.InLine src i j)
    (holds : Nat → Prop) (begun : holds i)
    (step : ∀ k ch, holds k → src[k]? = some ch → isLineTerminator ch = false → holds (k + 1)) :
    holds j := by
  obtain ⟨behind, inside⟩ := inLine
  induction behind with
  | refl => exact begun
  | step behind ih =>
    obtain ⟨ch, found, inLine⟩ := inside _ behind (Nat.lt_succ_self _)
    exact step _ ch (ih fun k after before => inside k after (Nat.lt_succ_of_lt before)) found inLine

/-- The registers of a cursor that has skipped layout from `start` on: the mark is exact, and the
line break is noted if there was one. -/
structure Cursor.Since (src : Source) (start : Nat) (c : Cursor) : Prop where
  exact : c.toMark.Exact src
  behind : start ≤ c.index
  lineBreak : c.lineBreak = some ((src.slice start c.index).any isLineTerminator)

namespace Cursor.Since

variable {src : Source} {start j : Nat} {c : Cursor} {ch : CodePoint}

theorem step (since : c.Since src start) (found : src[c.index]? = some ch)
    (inLine : isLineTerminator ch = false) :
    Cursor.Since src start { c with index := c.index + 1 } where
  exact := since.exact.step found inLine
  behind := Nat.le_succ_of_le since.behind
  lineBreak := by
    rw [slice_succ since.behind found]
    simp [since.lineBreak, inLine]

theorem lineBreak_noted (since : c.Since src start) (ends : LineBreak src c.index j) :
    Cursor.Since src start
      { c with index := j, lineNumber := c.lineNumber + 1, lineStart := j,
               lineBreak := some true } where
  exact := since.exact.lineBreak ends
  behind := Nat.le_trans since.behind (Nat.le_of_lt ends.lt)
  lineBreak := by
    have found : (src.slice start j).any isLineTerminator = true := by
      cases ends with
      | pair isReturn isFeed =>
        rw [slice_succ (Nat.le_succ_of_le since.behind) isFeed]
        simp [show isLineTerminator 0x0A = true by decide]
      | single found ends alone =>
        rw [slice_succ since.behind found]
        simp [ends]
    rw [found]

end Cursor.Since

namespace Layout

variable {src : Source} {c : Cursor}

theorem InLine.refl (i : Nat) : InLine src i i :=
  ⟨Nat.le_refl _, fun _ after before => absurd after (Nat.not_le.mpr before)⟩

variable {ch : CodePoint}

theorem InLine.succ (inLine : InLine src i j)
    (found : src[j]? = some ch) (same : isLineTerminator ch = false) : InLine src i (j + 1) := by
  refine ⟨Nat.le_succ_of_le inLine.1, fun k after before => ?_⟩
  by_cases last : k = j
  · subst last
    exact ⟨ch, found, same⟩
  · exact inLine.2 k after (by omega)

theorem InLine.le_size (inLine : InLine src i j) (bound : i ≤ src.size) : j ≤ src.size := by
  by_cases empty : i = j
  · omega
  · have behind := inLine.1
    obtain ⟨ch, found, -⟩ := inLine.2 (j - 1) (by omega) (by omega)
    have inside := (Array.getElem?_eq_some_iff.mp found).1
    omega

theorem LineRest.le_size (rest : LineRest src i j) : j ≤ src.size := by
  cases rest with
  | atEnd inLine => exact Nat.le_refl _
  | atBreak inLine ends => exact ends.le_size

variable {fresh fresh' : Bool}

theorem IsPiece.le_size (piece : IsPiece src fresh i fresh' j) : j ≤ src.size := by
  cases piece with
  | blank found isBlank => exact (Array.getElem?_eq_some_iff.mp found).1
  | lineBreak ends => exact ends.le_size
  | lineComment opens rest => exact rest.le_size
  | blockComment opens rest =>
    cases rest with
    | closed after star slash first => exact (Array.getElem?_eq_some_iff.mp slash).1
  | openingComment opens rest => exact rest.le_size
  | closingComment opens rest => exact rest.le_size

theorem IsPiece.lt (piece : IsPiece src fresh i fresh' j) : i < j := by
  have line {k : Nat} (rest : LineRest src k j) (bound : k ≤ src.size) : k ≤ j := by
    cases rest with
    | atEnd inLine => exact bound
    | atBreak inLine ends => exact Nat.le_trans inLine.1 (Nat.le_of_lt ends.lt)
  have opened {n : Nat} {text : Text} (opens : src.slice i (i + n) = text) (length : text.length = n)
      (positive : 0 < n) : i + n ≤ src.size := by
    have size := congrArg List.length opens
    rw [slice_length, length] at size
    omega
  cases piece with
  | blank found isBlank => exact Nat.lt_succ_self i
  | lineBreak ends => exact ends.lt
  | lineComment opens rest =>
    have behind := line rest (opened opens rfl (by decide))
    omega
  | blockComment opens rest =>
    cases rest with
    | closed after star slash first => omega
  | openingComment opens rest =>
    have behind := line rest (opened opens rfl (by decide))
    omega
  | closingComment opens rest =>
    have behind := line rest (opened opens rfl (by decide))
    omega

/-- What layout carries along: it goes on within a line, and over a line break that is counted. -/
structure Carried (src : Source) (keeps : Cursor → Prop) : Prop where
  step : ∀ {d : Cursor} {ch : CodePoint}, keeps d → src[d.index]? = some ch →
    isLineTerminator ch = false → keeps { d with index := d.index + 1 }
  lineBreak : ∀ {d : Cursor} {j : Nat}, keeps d → LineBreak src d.index j →
    keeps { d with index := j, lineNumber := d.lineNumber + 1, lineStart := j, lineBreak := some true }

/-- Layout fails at the end of the source: in a block comment, or while it looks ahead. -/
def Failed (src : Source) (keeps : Cursor → Prop) (fault : ScanFault) (d : Cursor) : Prop :=
  fault = .illegal ∧ keeps d ∨
    fault = .pastEnd ∧ (∀ length, ¬ Sealed src length) ∧ src[d.index]? ≠ some 0x7D

variable {keeps : Cursor → Prop}

theorem Failed.excused {fault : ScanFault} {d : Cursor} (failed : Failed src keeps fault d) :
    Excused src fault d := by
  rcases failed with ⟨rfl, -⟩ | ⟨rfl, missing⟩
  · trivial
  · exact missing

/-- Several characters of one line. -/
theorem Carried.steps (carried : Carried src keeps) {j : Nat} (held : keeps c)
    (inLine : InLine src c.index j) : keeps { c with index := j } :=
  inLine.induct (fun k => keeps { c with index := k }) held fun _ _ held found same =>
    carried.step held found same

theorem ahead_looks {α : Type} {f : CodePoint → ScanM α} {after : α → Cursor → Prop} {ch here : CodePoint}
    {offset : Nat} (found : src[c.index + offset]? = some ch) (other : ch ≠ 0x44)
    (first : src[c.index]? = some here) (noBrace : here ≠ 0x7D)
    (reads : ∀ ch', src[c.index + (offset + 1)]? = some ch' → Meets (f ch') c after (Failed src keeps)) :
    Meets (ahead src (offset + 1) >>= f) c after (Failed src keeps) :=
  ahead_or (.after found other) (fun _ => by simpa [first] using noBrace)
    (fun missing noBrace => .inr ⟨rfl, missing, noBrace⟩) reads

theorem completeBreak_ends {i : Nat} (found : src[i]? = some ch)
    (ends : isLineTerminator ch = true) (here : c.index = i + 1) : Meets (completeBreak src ch) c
      (fun _ d => ∃ j, LineBreak src i j ∧ d = { c with index := j }) (Failed src fun _ => False) := by
  have stays : c = { c with index := i + 1 } := by rw [← here]
  unfold completeBreak
  split
  next isReturn =>
    subst isReturn
    refine ahead_or (by rw [here]; exact .after found (by decide)) (fun missing => ?_)
      (fun missing noBrace => .inr ⟨rfl, missing, noBrace⟩) fun next found' => ?_
    · rw [Nat.add_zero] at missing
      exact fun brace => by cases missing.symm.trans brace
    rw [Nat.add_zero, here] at found'
    split
    next isFeed =>
      subst isFeed
      exact ⟨i + 2, .pair found found', by simp [here]⟩
    next notFeed =>
      refine ⟨i + 1, .single found ends fun _ isFeed => ?_, stays⟩
      exact notFeed (Option.some.inj (found'.symm.trans isFeed))
  next notReturn =>
    exact ⟨i + 1, .single found ends fun isReturn => absurd isReturn notReturn, stays⟩

theorem Failed.of_missing {fault : ScanFault} {d : Cursor} (failed : Failed src (fun _ => False) fault d) :
    Failed src keeps fault d :=
  .inr (failed.resolve_left fun illegal => illegal.2)

theorem skipLine_rest (carried : Carried src keeps) (bound : c.index ≤ src.size) (held : keeps c) :
    Meets (skipLine src) c (fun _ d => LineRest src c.index d.index ∧ keeps d) (Failed src keeps) := by
  -- The line goes on as far as the loop has come.
  refine repeated_meets (fun _ d => ∃ j, InLine src c.index j ∧ d = { c with index := j })
    ?_ ?_ ⟨_, .refl _, rfl⟩
  · rintro _ _ ⟨j, inLine, rfl⟩
    exact inLine.le_size bound
  rintro _ _ ⟨j, inLine, rfl⟩
  refine atEnd_ite (fun ended => ?_) fun inside => ?_
  · have here : j = src.size := Nat.le_antisymm (inLine.le_size bound) ended
    subst here
    exact ⟨.atEnd inLine, carried.steps held inLine⟩
  have found := Array.getElem?_eq_getElem inside
  refine .into (ahead_found found (.ite (fun ends => ?_) fun goesOn => ?_))
  · refine .into ((completeBreak_ends found ends rfl).mono ?_ fun _ _ failed => failed.of_missing)
    rintro _ _ ⟨k, isBreak, rfl⟩
    have held := carried.lineBreak (carried.steps held inLine) isBreak
    exact ⟨.atBreak inLine isBreak, held⟩
  · exact ⟨⟨j + 1, inLine.succ found (by simpa using goesOn), rfl⟩, Nat.lt_succ_self j⟩

theorem skipBlock_rest (carried : Carried src keeps) (bound : c.index ≤ src.size) (held : keeps c) :
    Meets (skipBlock src) c (fun _ d => BlockRest src c.index d.index ∧ keeps d) (Failed src keeps) := by
  -- No closing mark has been passed.
  refine repeated_meets (fun _ d => (c.index ≤ d.index ∧ d.index ≤ src.size) ∧
    (∀ k, c.index ≤ k → k < d.index → ¬(src[k]? = some 0x2A ∧ src[k + 1]? = some 0x2F)) ∧ keeps d)
    (fun _ _ holds => holds.1.2) ?_
    ⟨⟨Nat.le_refl _, bound⟩, fun k after before => absurd after (Nat.not_le.mpr before), held⟩
  rintro _ d ⟨⟨behind, -⟩, first, held⟩
  refine atEnd_ite (fun _ => .inl ⟨rfl, held⟩) fun inside => ?_
  have found := Array.getElem?_eq_getElem inside
  refine ahead_found found ?_
  generalize src[d.index] = ch at found
  have further (open_ : ch = 0x2A → src[d.index + 1]? ≠ some 0x2F) :
      ∀ k, c.index ≤ k → k < d.index + 1 → ¬(src[k]? = some 0x2A ∧ src[k + 1]? = some 0x2F) := by
    intro k after before ⟨star, slash⟩
    by_cases here : k = d.index
    · subst here
      exact open_ (Option.some.inj (found.symm.trans star)) slash
    · exact first k after (by omega) ⟨star, slash⟩
  have one {lineNumber lineStart : Nat} {lineBreak : Option Bool}
      (open_ : ch = 0x2A → src[d.index + 1]? ≠ some 0x2F)
      (held : keeps { d with index := d.index + 1, lineNumber, lineStart, lineBreak }) :=
    (⟨⟨⟨Nat.le_succ_of_le behind, inside⟩, further open_, held⟩, Nat.lt_succ_self _⟩ :
      (((c.index ≤ d.index + 1 ∧ d.index + 1 ≤ src.size) ∧ _ ∧ keeps _) ∧ d.index < d.index + 1))
  split
  next ends =>
    have notStar : ch ≠ 0x2A := by
      rintro rfl
      exact absurd ends (by decide)
    refine .ite (fun isReturn => ?_) fun notReturn => ?_
    · subst isReturn
      refine ahead_looks found (by decide) found (by decide) fun next found' => ?_
      refine .ite (fun isFeed => ?_) fun notFeed => ?_
      · subst isFeed
        have held := carried.lineBreak held (.pair found found')
        refine ⟨⟨⟨show c.index ≤ d.index + 1 + 1 by omega, (Array.getElem?_eq_some_iff.mp found').1⟩,
          fun k after before => ?_, held⟩,
          show d.index < d.index + 1 + 1 by omega⟩
        by_cases last : k = d.index + 1
        · rintro ⟨star, -⟩
          rw [last, found'] at star
          cases star
        · have before' : k < d.index + 1 + 1 := before
          exact further (fun isStar => absurd isStar notStar) k after (by omega)
      · refine one (fun isStar => absurd isStar notStar) (carried.lineBreak held (.single found ends ?_))
        exact fun _ isFeed => notFeed (Option.some.inj (found'.symm.trans isFeed))
    · exact one (fun isStar => absurd isStar notStar)
        (carried.lineBreak held (.single found ends fun isReturn => absurd isReturn notReturn))
  next sameLine =>
    have inLine : isLineTerminator ch = false := by simpa using sameLine
    refine .ite (fun isStar => ?_) fun notStar => ?_
    · subst isStar
      refine ahead_looks found (by decide) found (by decide) fun next found' => ?_
      refine .ite (fun isSlash => ?_) fun notSlash => ?_
      · subst isSlash
        exact ⟨.closed behind found found' first,
          carried.step (carried.step held found inLine) found' (by decide)⟩
      · refine one (fun _ isSlash => ?_) (carried.step held found inLine)
        exact notSlash (Option.some.inj (found'.symm.trans isSlash))
    · exact one (fun isStar => absurd isStar notStar) (carried.step held found inLine)

theorem slice_cons (found : src[i]? = some ch) (before : i < j) :
    src.slice i j = ch :: src.slice (i + 1) j := by
  apply List.ext_getElem?
  intro k
  cases k with
  | zero => simp [@slice_getElem? src i j 0 before, found]
  | succ k =>
    by_cases inside : i + (k + 1) < j
    · rw [slice_getElem? inside, List.getElem?_cons_succ, slice_getElem? (by omega)]
      congr 1
      omega
    · rw [List.getElem?_cons_succ, List.getElem?_eq_none, List.getElem?_eq_none]
      · rw [slice_length]
        omega
      · rw [slice_length]
        omega

theorem slice_self (i : Nat) : src.slice i i = [] := by
  simp [Source.slice]

theorem InLine.of_starts {text : Text} (starts : text <+: src.slice i j)
    (plain : text.all (fun ch => !isLineTerminator ch) = true) : InLine src i (i + text.length) := by
  refine ⟨Nat.le_add_right _ _, fun k after before => ?_⟩
  have inside : k - i < text.length := by omega
  have short : text.length ≤ j - i := by
    have length := starts.length_le
    rw [slice_length] at length
    omega
  have found : src[k]? = some text[k - i] := by
    rw [← List.prefix_iff_getElem?.mp starts (k - i) inside, slice_getElem? (by omega),
      Nat.add_sub_cancel' after]
  refine ⟨_, found, ?_⟩
  simpa using List.all_eq_true.mp plain _ (List.getElem_mem inside)

theorem InLine.of_opens {i n : Nat} {text : Text} (opens : src.slice i (i + n) = text)
    (length : text.length = n) (plain : text.all (fun ch => !isLineTerminator ch) = true) :
    InLine src i (i + n) :=
  length ▸ of_starts (j := i + n) (by simp [opens]) plain

theorem comment_rest {n : Nat} {text : Text} (carried : Carried src keeps) (bound : c.index ≤ src.size)
    (held : keeps c) (opens : src.slice c.index (c.index + n) = text) (length : text.length = n)
    (plain : text.all (fun ch => !isLineTerminator ch) = true)
    {after : Bool ⊕ Unit → Cursor → Prop} {answer : Bool}
    (next : ∀ d, LineRest src (c.index + n) d.index → keeps d → after (.inl answer) d) :
    Meets (do skip n; skipLine src; pure (.inl answer)) c after (Failed src keeps) := by
  have inLine : InLine src c.index (c.index + n) := .of_opens opens length plain
  have held := carried.steps held inLine
  refine .modify_bind (Meets.bind (skipLine_rest carried (inLine.le_size bound) held) ?_)
  exact fun _ d met => next d met.1 met.2

theorem not_lineTerminator_of_whiteSpace (isBlank : isWhiteSpace ch = true) :
    isLineTerminator ch = false := by
  have none : ∀ ch ∈ whiteSpace, isLineTerminator ch = false := by decide
  exact none ch (by simpa [isWhiteSpace] using isBlank)

theorem piece_passes (fresh : Bool) (carried : Carried src keeps) (bound : c.index ≤ src.size)
    (held : keeps c) : Meets (piece src fresh) c
      (Sum.elim (fun fresh' d => IsPiece src fresh c.index fresh' d.index ∧ keeps d)
        (fun _ d => d = c ∧ NoComment src c.index)) (Failed src keeps) := by
  refine atEnd_ite (fun ended => ⟨rfl, fun found => ?_⟩) fun inside => ?_
  · exact absurd (Array.getElem?_eq_some_iff.mp found).1 (Nat.not_lt.mpr ended)
  have found := Array.getElem?_eq_getElem inside
  refine ahead_found found ?_
  generalize src[c.index] = ch at found
  refine .ite (fun isBlank => ?_) fun _ => .ite (fun ends => ?_) fun _ => .ite (fun isSlash => ?_) fun notSlash => ?_
  · exact ⟨.blank found isBlank, carried.step held found (not_lineTerminator_of_whiteSpace isBlank)⟩
  · refine .modify_bind (.modify_bind (.into ?_))
    refine (completeBreak_ends found ends rfl).mono ?_ fun _ _ failed => failed.of_missing
    rintro _ _ ⟨j, isBreak, rfl⟩
    have held := carried.lineBreak held isBreak
    exact ⟨.lineBreak isBreak, held⟩
  · subst isSlash
    refine ahead_looks found (by decide) found (by decide) fun ch' found' => ?_
    have opens : src.slice c.index (c.index + 2) = [0x2F, ch'] := by
      rw [slice_cons found (by omega), slice_cons found' (by omega), slice_self]
    refine .ite (fun isSlash => ?_) fun notSlash => .ite (fun isStar => ?_) fun notStar => ?_
    · subst isSlash
      exact comment_rest carried bound held opens rfl (by decide) fun d rest held =>
        ⟨.lineComment opens rest, held⟩
    · subst isStar
      have inLine : InLine src c.index (c.index + 2) := .of_opens opens rfl (by decide)
      refine .modify_bind (Meets.bind (skipBlock_rest carried (inLine.le_size bound)
        (carried.steps held inLine)) fun _ d met => ?_)
      exact ⟨.blockComment opens met.1, met.2⟩
    · exact ⟨rfl, fun _ => ⟨ch', found', notSlash, notStar⟩⟩
  have none : NoComment src c.index := fun slash =>
    absurd (Option.some.inj (found.symm.trans slash)) notSlash
  refine .ite (fun isMinus => ?_) fun _ => .ite (fun isLess => ?_) fun _ => ⟨rfl, none⟩
  · obtain ⟨rfl, rfl⟩ : fresh = true ∧ ch = 0x2D := by simpa using isMinus
    refine ahead_looks found (by decide) found (by decide) fun ch' found' => ?_
    refine .ite (fun isMinus' => ?_) fun _ => ⟨rfl, none⟩
    subst isMinus'
    refine ahead_looks found' (by decide) found (by decide) fun ch'' found'' => ?_
    refine .ite (fun isGreater => ?_) fun _ => ⟨rfl, none⟩
    subst isGreater
    have opens : src.slice c.index (c.index + 3) = Text.ofString "-->" := by
      rw [slice_cons found (by omega), slice_cons found' (by omega), slice_cons found'' (by omega), slice_self]
      rfl
    exact comment_rest carried bound held opens rfl (by decide) fun d rest held =>
      ⟨.closingComment opens rest, held⟩
  · subst isLess
    refine .get_bind (.ite (fun markup => ?_) fun _ => ⟨rfl, none⟩)
    have opens : src.slice c.index (c.index + 4) = Text.ofString "<!--" := by
      rw [slice_cons found (by omega), markup]
      rfl
    exact comment_rest carried bound held opens rfl (by decide) fun d rest held =>
      ⟨.openingComment opens rest, held⟩

/-- Skipping layout passes a gap, and ends where no comment starts. -/
theorem skipAll_carries (carried : Carried src keeps) (bound : c.index ≤ src.size)
    (held : keeps { c with lineBreak := some false }) :
    Meets (skipAll src) c (fun _ d => Gap src c.index d.index ∧ keeps d ∧ NoComment src d.index)
      (Failed src keeps) := by
  refine .modify_bind (.get_bind ?_)
  refine repeated_meets (fun fresh d => Pieces src (c.index = 0) c.index fresh d.index ∧
    d.index ≤ src.size ∧ keeps d) (fun _ _ holds => holds.2.1) ?_ ⟨.none, bound, held⟩
  rintro fresh d ⟨pieces, bound, held⟩
  refine (piece_passes fresh carried bound held).imp fun answer e met => ?_
  cases answer with
  | inl fresh' => exact ⟨⟨.more pieces met.1, met.1.le_size, met.2⟩, met.1.lt⟩
  | inr _ =>
    obtain ⟨rfl, plain⟩ := met
    exact ⟨⟨fresh, pieces⟩, held, plain⟩

theorem carried_since (start : Nat) : Carried src (Cursor.Since src start) :=
  ⟨fun since found inLine => since.step found inLine, fun since ends => since.lineBreak_noted ends⟩

theorem carried_reaches : Carried src (c.Reaches src) where
  step reach found _ := reach.skip 1 rfl (Array.getElem?_eq_some_iff.mp found).1 rfl
  lineBreak reach ends := reach.trans ⟨Nat.le_of_lt ends.lt, ends.le_size, rfl⟩

theorem skipAll_passes (bound : c.index ≤ src.size) :
    Meets (skipAll src) c (fun _ d => Gap src c.index d.index ∧
      (c.toMark.Exact src → d.Since src c.index)) anyFault := by
  by_cases exact : c.toMark.Exact src
  · refine (skipAll_carries (carried_since c.index) bound ?_).mono (fun _ _ met => ⟨met.1, fun _ => met.2.1⟩)
      fun _ _ _ => trivial
    exact ⟨exact, Nat.le_refl _, by simp [slice_self]⟩
  · refine (skipAll_carries carried_reaches bound (Cursor.Reaches.refl bound)).mono
      (fun _ _ met => ⟨met.1, fun exact' => absurd exact' exact⟩) fun _ _ _ => trivial

theorem piece_reaches (fresh : Bool) (bound : c.index ≤ src.size) : Meets (piece src fresh) c
      (Sum.elim (fun _ d => c.Reaches src d ∧ c.index < d.index)
        (fun _ d => d = c ∧ NoComment src c.index)) (Excused src) := by
  refine (piece_passes fresh carried_reaches bound (.refl bound)).mono (fun answer d met => ?_)
    fun _ _ failed => failed.excused
  cases answer with
  | inl fresh' => exact ⟨met.2, met.1.lt⟩
  | inr _ => exact met

theorem skipAll_reaches (bound : c.index ≤ src.size) :
    Meets (skipAll src) c (fun _ d => c.Reaches src d ∧ NoComment src d.index) (Excused src) :=
  (skipAll_carries (carried_reaches (c := c)) bound ⟨Nat.le_refl _, bound, rfl⟩).mono (fun _ _ met => met.2)
    fun _ _ failed => failed.excused

/-! ### The layout after a sealed program ends at the semicolon -/

section Sealed

variable {length i j : Nat}

section

variable (ends : Sealed src length)
include ends

theorem break_stops (early : i ≤ length + 3) (isBreak : LineBreak src i j) : j ≤ length + 3 := by
  cases isBreak with
  | pair isReturn isFeed =>
    have inCode := ends.inCode isReturn (by decide)
    omega
  | single found terminates alone =>
    have other : i ≠ length + 3 := by
      rintro rfl
      rw [ends.semicolon] at found
      cases found
      cases terminates
    omega

theorem LineRest.stops (early : i ≤ length + 1) (rest : LineRest src i j) : j ≤ length + 3 := by
  have first {m : Nat} (inLine : InLine src i m) : m ≤ length + 1 := by
    refine Nat.le_of_not_lt fun far => ?_
    obtain ⟨ch, found, same⟩ := inLine.2 (length + 1) early far
    rw [ends.lineFeed] at found
    cases found
    cases same
  cases rest with
  | atEnd inLine => exact Nat.le_trans (first inLine) (by omega)
  | atBreak inLine isBreak => exact break_stops ends (Nat.le_trans (first inLine) (by omega)) isBreak

theorem IsPiece.stops (early : i ≤ length + 3)
    (piece : IsPiece src fresh i fresh' j) : j ≤ length + 3 := by
  have char {n k : Nat} {text : Text} {ch : CodePoint} (opens : src.slice i (i + n) = text) (inside : k < n)
      (here : text[k]? = some ch) : src[i + k]? = some ch := by
    rw [← slice_getElem? (show i + k < i + n by omega), opens, here]
  cases piece with
  | blank found isBlank =>
    have other : i ≠ length + 3 := by
      rintro rfl
      rw [ends.semicolon] at found
      cases found
      cases isBlank
    omega
  | lineBreak isBreak => exact break_stops ends early isBreak
  | lineComment opens rest =>
    have inCode := ends.slash_inCode (char (k := 0) opens (by decide) rfl) early
    exact rest.stops ends (by omega)
  | blockComment opens rest =>
    cases rest with
    | closed after star slash first =>
      have inCode := ends.inCode star (by decide)
      omega
  | openingComment opens rest =>
    have inCode := ends.inCode (char (k := 3) opens (by decide) rfl) (by decide)
    exact rest.stops ends (by omega)
  | closingComment opens rest =>
    have inCode := ends.inCode (char (k := 2) opens (by decide) rfl) (by decide)
    exact rest.stops ends (by omega)

theorem piece_stops (fresh : Bool) (early : c.index ≤ length + 3) : Meets (piece src fresh) c
      (Sum.elim (fun _ d => d.index ≤ length + 3) (fun _ d => d.index ≤ length + 3)) anyFault := by
  have bound : c.index ≤ src.size := by
    rw [ends.size_eq]
    omega
  refine (piece_passes fresh carried_reaches bound (.refl bound)).mono (fun answer d met => ?_)
    fun _ _ _ => trivial
  cases answer with
  | inl fresh' => exact met.1.stops ends early
  | inr _ => exact met.1 ▸ early

theorem skipAll_stops (early : c.index ≤ length) :
    Meets (skipAll src) c (fun _ d => d.index ≤ length + 3) anyFault := by
  refine .modify_bind (.get_bind ?_)
  refine Meets.iterate_returns (fun _ d => d.index ≤ length + 3)
    (fun fresh d early => piece_stops ends fresh early) _ _ _ ?_
  exact Nat.le_trans early (Nat.le_add_right _ _)

end

end Sealed

end Layout

end EcmaScript
