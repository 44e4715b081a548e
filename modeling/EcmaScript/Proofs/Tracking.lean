import EcmaScript.Proofs.Lexing

/-!
Reading a token keeps the line registers exact. Names, numbers, marks and regular expressions lie
within a line, so that only the index moves. Strings and templates may go on over several lines, and
count every line break they pass.
-/

namespace EcmaScript

open Scan Character

/-- The registers stay exact from `c` to `d`, and the line break noted last is still noted. -/
structure Cursor.Tracks (src : Source) (c d : Cursor) : Prop where
  exact : c.toMark.Exact src → d.toMark.Exact src
  lineBreak : d.lineBreak = c.lineBreak

section

variable {src : Source} {c d e : Cursor} {ch : CodePoint}

theorem Mark.Exact.steps {mark : Mark} {j : Nat} (exact : mark.Exact src)
    (inLine : Layout.InLine src mark.index j) : Mark.Exact src { mark with index := j } :=
  inLine.induct (fun k => Mark.Exact src { mark with index := k }) exact
    fun _ _ exact' found inLine => exact'.step found inLine

namespace Cursor.Tracks

theorem refl (c : Cursor) : c.Tracks src c :=
  ⟨fun exact => exact, rfl⟩

end Cursor.Tracks

theorem Cursor.Passes.tracks (passes : c.Passes src d) : c.Tracks src d := by
  induction passes with
  | refl => exact .refl c
  | step passes found inLine ih => exact ⟨fun exact => (ih.exact exact).step found inLine, ih.lineBreak⟩
  | lineBreak passes ends ih => exact ⟨fun exact => (ih.exact exact).lineBreak ends, ih.lineBreak⟩

/-! ### Marks -/

namespace Mark

/-- Marks hold no line terminator. -/
theorem text_inLine (mark : Punctuator) : mark.text.all (fun ch => !isLineTerminator ch) = true := by
  cases mark <;> decide

theorem token_along : Meets (token src) c (fun token d => token.lineNumber = c.lineNumber ∧
    ∃ e, c.Along src e ∧ d.toMark = e.toMark ∧ d.lineBreak = e.lineBreak)
    fun _ d => ∃ j, c.index ≤ j ∧ d = { c with index := j } := by
  have here : ∃ j, c.index ≤ j ∧ c = { c with index := j } := ⟨_, Nat.le_refl _, rfl⟩
  refine .get_bind (.into (.into (.get_bind ?_)))
  split
  case h_2 => exact here
  refine .pure (.get_bind ?_)
  have along {mark : Punctuator} (found : Punctuator.longest? (src.slice c.index (c.index + 4)) =
      some mark) : c.Along src { c with index := c.index + mark.text.length } :=
    ⟨_, .of_starts (longest?_isPrefix found) (text_inLine mark), rfl⟩
  dsimp only
  split
  next => exact here
  next found =>
    refine .into (.get_bind ?_)
    split
    · exact ⟨rfl, _, along found, rfl, rfl⟩
    · exact here
  next found =>
    refine .modify_bind (.into ?_)
    refine .get_bind ?_
    split
    · exact ⟨_, Nat.le_succ _, rfl⟩
    · exact ⟨rfl, _, along found, rfl, rfl⟩
    · exact ⟨_, Nat.le_succ _, rfl⟩
  next mark _ _ found => exact ⟨rfl, _, along found, rfl, rfl⟩

end Mark

/-! ### Tokens -/

/-- A token and what has been passed over for it. The token is on the line where it starts or on the one
where it ends, and a mark lies within a line. The open braces may have changed. -/
structure Passed (src : Source) (c : Cursor) (token : Token) (d : Cursor) : Prop where
  passes : ∃ e, c.Passes src e ∧ d.toMark = e.toMark ∧ d.lineBreak = e.lineBreak
  line : token.lineNumber = c.lineNumber ∨ token.lineNumber = d.lineNumber
  inLine : ∀ mark, token.lexeme = .punctuator mark →
    d.lineNumber = c.lineNumber ∧ d.lineStart = c.lineStart

/-- A scanner has failed at or behind what it has passed, on the same line. -/
def Cursor.Strays (src : Source) (c : Cursor) (fault : ScanFault) (d : Cursor) : Prop :=
  fault = .pastEnd ∨ ∃ e, c.Passes src e ∧ e.index ≤ d.index ∧ d.lineNumber = e.lineNumber

abbrev Passing (src : Source) (m : ScanM Token) (c : Cursor) : Prop :=
  Meets m c (Passed src c) (c.Strays src)

theorem Passed.of_plain {token : Token} (plain : token.lexeme.IsPlain) (passes : c.Passes src d)
    (line : token.lineNumber = c.lineNumber ∨ token.lineNumber = d.lineNumber) : Passed src c token d := by
  refine ⟨⟨d, passes, rfl, rfl⟩, line, fun mark isMark => ?_⟩
  rw [isMark] at plain
  exact plain.elim

theorem Cursor.Took.strays {text rest : Text} {fault : ScanFault} (took : c.Took src text rest d) :
    c.Strays src fault d := by
  rw [took.cursor]
  exact .inr ⟨c, .refl, Nat.le_add_right _ _, rfl⟩

theorem Cursor.Fails.strays {excuse : Prop} {fault : ScanFault} (failed : d.Fails src excuse fault e)
    (first : c.Passes src d) : c.Strays src fault e := by
  refine failed.2.imp_right ?_
  rintro ⟨f, j, passes, behind, rfl⟩
  exact ⟨f, first.trans passes, behind, rfl⟩

theorem Lexer.nameToken_passing (strict : Bool) (found : src[c.index]? = some ch)
    (starts : isIdentifierStart ch = true) : Passing src (nameToken src strict) c := by
  refine (nameToken_decides strict found starts).mono ?_ fun fault d broken => ?_
  · rintro _ d ⟨parts, rest, spells, -, took, rfl⟩
    refine .of_plain (named_plain strict (Lexeme.ofName_plain _)) (took.along fun ch member => ?_).passes ?_
    · exact inLine_of_member isIdentifierPart_inLine (Name.named_of_spells spells ch member)
    · cases strict <;> exact .inl rfl
  · obtain ⟨extra, left, took, -⟩ := broken
    exact took.strays

theorem Numeric.token_passing (starts : Numeral.Starts (src.ahead c.index)) :
    Passing src (Numeric.token src) c := by
  obtain ⟨n, rest, at_n, met⟩ := Numeral.token_decides starts
  refine met.mono ?_ fun fault d refused => ?_
  · rintro token d ⟨rfl, took, -⟩
    refine .of_plain trivial (took.along fun ch member => ?_).passes (.inl rfl)
    have numeric : ∀ ch ∈ lineTerminators, Numeral.isNumeric ch = false := by decide
    exact inLine_of_member numeric (Numeral.isNumeric_spelling at_n.valid ch member)
  · obtain ⟨extra, left, took, -⟩ := refused.place
    exact took.strays

theorem Mark.token_passing : Passing src (token src) c := by
  refine token_along.mono ?_ ?_
  · rintro token d ⟨sameLine, _, ⟨j, inLine, rfl⟩, same, lineBreak⟩
    refine ⟨⟨_, Cursor.Along.passes ⟨j, inLine, rfl⟩, same, lineBreak⟩, .inl sameLine, fun _ _ => ?_⟩
    rw [same]
    exact ⟨rfl, rfl⟩
  · rintro _ _ ⟨j, behind, rfl⟩
    exact .inr ⟨c, .refl, behind, rfl⟩

theorem StringLiteral.token_passing (lineStart : Option Nat) (found : src[c.index]? = some ch)
    (isQuote : ch = 0x27 ∨ ch = 0x22) : Passing src (token src lineStart) c := by
  obtain ⟨elements, rest, spelled, ahead, met⟩ := token_decides lineStart isQuote found
  have starts : isLineTerminator ch = false := by rcases isQuote with rfl | rfl <;> decide
  refine met.mono ?_ fun fault d refused => ?_
  · rintro _ _ ⟨⟨more, rfl⟩, rfl, rfl⟩
    obtain ⟨-, lineNumber, -⟩ := StringElement.close_eq c elements
    exact .of_plain trivial (close_passes isQuote spelled ahead) (.inr lineNumber.symm)
  · refine refused.symm.imp (fun isEnd => isEnd.1) ?_
    rintro ⟨-, j, behind, rfl⟩
    exact ⟨_, StringElement.passes_foldl (d := { c with index := c.index + 1 }) spelled
      (Source.ahead_cons ahead) (Cursor.Passes.refl.step found starts), behind, rfl⟩

/-- A template or a part of one. -/
theorem Template.token_passing (found : src[c.index]? = some ch) (starts : isLineTerminator ch = false) :
    Passing src (token src) c := by
  have first : c.Passes src { c with index := c.index + 1 } := Cursor.Passes.refl.step found starts
  refine .get_bind (ahead_found found (.modify_bind ?_))
  refine Meets.bind ((body_passes (c := { c with index := c.index + 1 })
    (Array.getElem?_eq_some_iff.mp found).1).mono (fun _ _ met => met) fun _ _ failed => failed.strays first) ?_
  rintro ⟨cooked, tail⟩ _ ⟨e, passes, rfl⟩
  have passes := first.trans passes
  refine .ite (fun _ => ⟨⟨e, passes, rfl, rfl⟩, .inr rfl, nofun⟩) fun _ => ?_
  refine .into (.get_bind ?_)
  split
  · exact .inr ⟨e, passes, Nat.le_refl _, rfl⟩
  · exact ⟨⟨e, passes, rfl, rfl⟩, .inr rfl, nofun⟩
  · exact .inr ⟨e, passes, Nat.le_refl _, rfl⟩

theorem Lexer.token_passing (strict : Bool) (lineStart : Option Nat) :
    Passing src (Lexer.token src strict lineStart) c := by
  refine token_dispatch (fun _ => ⟨⟨c, .refl, rfl, rfl⟩, .inl rfl, nofun⟩)
    (fun _ => nameToken_passing strict) (fun _ _ _ => Mark.token_passing)
    (fun _ => StringLiteral.token_passing lineStart) Numeric.token_passing (fun _ _ => .inl rfl)
    (fun found => Template.token_passing found (by decide)) fun found => ?_
  refine .into (.get_bind ?_)
  split
  · exact .inr ⟨c, .refl, Nat.le_refl _, rfl⟩
  · split
    · exact .inr ⟨c, .refl, Nat.le_refl _, rfl⟩
    · exact .ite (fun _ => Template.token_passing found (by decide)) fun _ => Mark.token_passing

/-- The registers stay exact over a token; a mark lies within a line. -/
structure Tracked (src : Source) (c : Cursor) (token : Token) (d : Cursor) : Prop
    extends c.Tracks src d where
  inLine : ∀ mark, token.lexeme = .punctuator mark →
    d.lineNumber = c.lineNumber ∧ d.lineStart = c.lineStart

theorem Lexer.token_tracked (strict : Bool) (lineStart : Option Nat) :
    Meets (Lexer.token src strict lineStart) c (fun token d => Tracked src c token d) anyFault := by
  refine (token_passing strict lineStart).mono (fun token d passed => ?_) fun _ _ _ => trivial
  obtain ⟨e, passes, same, lineBreak⟩ := passed.passes
  have tracks := passes.tracks
  exact ⟨⟨fun exact => same ▸ tracks.exact exact, lineBreak.trans tracks.lineBreak⟩, passed.inLine⟩

end

end EcmaScript
