import EcmaScript.Proofs.Journal
import EcmaScript.Proofs.Outcomes
import EcmaScript.Proofs.Tracking

/-!
Positions of the lookahead. After every token that is fetched while a program is read, the registers
tell where the parser stands: the cursor and the start of the lookahead are exact, they are the two
ends of the lookahead, and the line break in front of it is noted just when the gap holds one. One
fetch makes all this true again, and the other steps of a journal do not touch the registers.
-/

namespace EcmaScript

open Character Layout

/-- All registers of positions are right, and the token before the lookahead ended at `i`. -/
structure Parser.Positioned (src : Source) (i : Nat) (p : Parser) : Prop where
  lineNumber : p.cursor.lineNumber = 1 + (src.slice 0 p.cursor.index).lineBreaks
  lineStart : p.cursor.lineStart = (src.slice 0 p.cursor.index).lastLineStart
  lookahead : ∃ mark token, p.start = some mark ∧ p.lookahead = some token ∧
    mark.index = token.start ∧ p.cursor.index = token.stop ∧
    mark.lineNumber = 1 + (src.slice 0 mark.index).lineBreaks ∧
    mark.lineStart = (src.slice 0 mark.index).lastLineStart ∧
    p.cursor.lineBreak = some ((src.slice i mark.index).any isLineTerminator)

/-- The registers are right after a fetch. The gap before the first token begins where the source
does. -/
def Fetch.Positioned (src : Source) : Fetch → Prop
  | .first after => after.Positioned src 0
  | .next given after => after.Positioned src given.stop
  | .literal r after => after.Positioned src r.stop

/-- What the positions in the registers say between two fetches. A slash is on one line with the
character after it, so that it can be read again, and a keyword ends before the sentinel. -/
structure Parser.Charted (src : Source) (p : Parser) : Prop where
  source : p.source = some src
  exact : p.cursor.toMark.Exact src
  bound : p.cursor.index ≤ src.size
  braces : ∃ braces, p.cursor.braces = some braces
  lookahead : ∀ token, p.lookahead = some token → ∃ mark, p.start = some mark ∧
    mark.Exact src ∧ mark.index = token.start ∧ p.cursor.index = token.stop ∧
    (token.IsSlash → src[mark.index]? = some 0x2F ∧ Layout.NoComment src mark.index ∧
      p.cursor.lineNumber = mark.lineNumber ∧ p.cursor.lineStart = mark.lineStart) ∧
    ∀ word, token.lexeme = .keyword word → ∀ length, Sealed src length → p.cursor.index ≤ length

/-- A token that was given away had been the lookahead of a parser with right registers. -/
def Fetch.Grounded (src : Source) : Fetch → Prop
  | .next given after => ∃ p : Parser, p.Charted src ∧ p.lookahead = some given ∧
    Parse.lex p = .ok (some given) after
  | _ => True

variable {src : Source} {p q : Parser} {α : Type}

theorem Parser.Charted.calm (charted : p.Charted src) (calm : p.Calm q) : q.Charted src where
  source := calm.source.trans charted.source
  exact := calm.cursor ▸ charted.exact
  bound := calm.cursor ▸ charted.bound
  braces := calm.cursor ▸ charted.braces
  lookahead token looked := by
    -- The lookahead may have been noted to be an operator, which changes nothing here.
    have noted := calm.lookahead
    rw [looked, Option.map_some] at noted
    obtain ⟨seen, looked', same⟩ := Option.map_eq_some_iff.mp noted.symm
    obtain ⟨lexeme, start, stop⟩ :
        seen.lexeme = token.lexeme ∧ seen.start = token.start ∧ seen.stop = token.stop :=
      ⟨congrArg (·.lexeme) same, congrArg (·.start) same, congrArg (·.stop) same⟩
    rw [calm.start, calm.cursor, ← start, ← stop, Token.IsSlash, ← lexeme]
    exact charted.lookahead seen looked'

/-- A run that is known meets what holds of its answer, or of its fault. -/
theorem Meets.of_run {ε σ : Type} {m : EStateM ε σ α} {s t : σ} {a : α} {returns : α → σ → Prop}
    {fails : ε → σ → Prop} (run : m s = .ok a t) (holds : returns a t) : Meets m s returns fails := by
  unfold Meets
  rwa [run]

theorem Meets.of_fault {ε σ : Type} {m : EStateM ε σ α} {s t : σ} {e : ε}
    {returns : α → σ → Prop} {fails : ε → σ → Prop} (run : m s = .error e t) (holds : fails e t) :
    Meets m s returns fails := by
  unfold Meets
  rwa [run]

namespace Parse

theorem charted_of_read {between after : Cursor} {strict : Bool} {lineStart : Option Nat}
    {token : Token} (source : p.source = some src) (exact : p.cursor.toMark.Exact src)
    (bound : p.cursor.index ≤ src.size) (braces : ∃ braces, p.cursor.braces = some braces) (last : Mark)
    (layout : Layout.skipAll src { p.cursor with lineBreak := some false } = .ok () between)
    (reads : Lexer.token src strict lineStart between = .ok token after) :
    (p.fetched last between after token).Charted src ∧
      (p.fetched last between after token).Positioned src p.cursor.index := by
  obtain ⟨braces, opened⟩ := braces
  have since := ((skipAll_passes (by exact bound)).of_ok layout).2 exact
  obtain ⟨reach, plain⟩ := (skipAll_reaches (by exact bound)).of_ok layout
  have scanned :=
    (Lexer.token_meets strict lineStart reach.bound (reach.braces.trans opened)).of_ok reads
  have tracked := (Lexer.token_tracked strict lineStart).of_ok reads
  have ends := tracked.exact since.exact
  obtain ⟨_, braces', _, opened', _⟩ := scanned.braces
  constructor
  · refine ⟨source, ends, scanned.bound, ⟨braces', opened'⟩, fun _ looked => ?_⟩
    cases looked
    refine ⟨between.toMark, rfl, since.exact, scanned.start.symm, scanned.stop.symm, ?_,
      scanned.keyword⟩
    intro isSlash
    refine ⟨scanned.slash isSlash, plain, ?_⟩
    rcases isSlash with slash | slash <;> exact tracked.inLine _ slash
  · refine ⟨ends.lineNumber, ends.lineStart, between.toMark, token, rfl, rfl, scanned.start.symm,
      scanned.stop.symm, since.exact.lineNumber, since.exact.lineStart, ?_⟩
    exact tracked.lineBreak.trans since.lineBreak

theorem peek_charted (charted : p.Charted src) (run : peek p = .ok () q) :
    q.Charted src ∧ q.Positioned src p.cursor.index := by
  obtain ⟨between, after, token, layout, reads, rfl⟩ := (peek_ok_iff charted.source).mp run
  exact charted_of_read charted.source charted.exact charted.bound charted.braces _ layout reads

theorem lex_charted {given : Option Token} (run : lex p = .ok given q)
    (source : p.source = some src) (exact : p.cursor.toMark.Exact src)
    (bound : p.cursor.index ≤ src.size) (braces : ∃ braces, p.cursor.braces = some braces) :
    q.Charted src ∧ q.Positioned src p.cursor.index := by
  obtain ⟨between, after, token, layout, reads, -, rfl⟩ := (lex_ok_iff source).mp run
  exact charted_of_read (p := p.giving) source exact bound braces _ layout reads

/-- A slash that is read again: the line is the one it was read in first, and the regular expression
does not leave it. What is left is to read the token behind it, with the same open braces. -/
theorem rescan_lex {token : Token} {r : RegExp} (charted : p.Charted src)
    (looked : p.lookahead = some token) (isSlash : token.IsSlash) (run : rescan p = .ok r q) :
    ∃ given behind, lex behind = .ok given q ∧ behind.source = some src ∧
      behind.cursor.toMark.Exact src ∧ behind.cursor.index ≤ src.size ∧
      behind.cursor.braces = p.cursor.braces ∧ r.stop = behind.cursor.index := by
  obtain ⟨mark, start, exact, -, -, slash, -⟩ := charted.lookahead token looked
  obtain ⟨found, plain, lineNumber, lineStart⟩ := slash isSlash
  obtain ⟨_, between, after, given, start', layout, scanned, lexed⟩ := (rescan_ok_iff charted.source).mp run
  cases start.symm.trans start'
  -- The layout before the slash has been skipped already, so the cursor starts at the mark.
  have solid : Layout.Solid src (mark.index = 0) mark.index := .of_slash found plain
  have stays := (skipAll_solid (by exact solid) rfl :
    Meets _ _ (fun _ d => d = { p.cursor with index := mark.index, lineBreak := some false })
      anyFault).of_ok layout
  subst stays
  obtain ⟨⟨j, inLine, rfl⟩, stop, -⟩ := RegExp.scan_along.of_ok scanned
  have begun : Mark.Exact src ⟨mark.index, p.cursor.lineNumber, p.cursor.lineStart⟩ := by
    rw [lineNumber, lineStart]
    exact exact
  have ended : Mark.Exact src ⟨j, p.cursor.lineNumber, p.cursor.lineStart⟩ := begun.steps inLine
  have bound := inLine.le_size (Nat.le_of_lt (Array.getElem?_eq_some_iff.mp found).1)
  exact ⟨given, _, lexed, charted.source, ended, bound, rfl, stop⟩

theorem rescan_charted {token : Token} {r : RegExp} (charted : p.Charted src)
    (looked : p.lookahead = some token) (isSlash : token.IsSlash) (run : rescan p = .ok r q) :
    q.Charted src ∧ q.Positioned src r.stop := by
  obtain ⟨_, _, lexed, source, exact, bound, braces, stop⟩ :=
    rescan_lex charted looked isSlash run
  rw [stop]
  exact lex_charted lexed source exact bound (braces ▸ charted.braces)

end Parse

/-- Along a journal the registers stay right, and after every fetch they are exact. -/
theorem Performs.positioned {m : ParseM α} {journal : List Fetch} (performs : Performs m p journal)
    (charted : p.Charted src) : (∀ fetch ∈ journal, fetch.Positioned src ∧ fetch.Grounded src) ∧
      Meets m p (fun _ q => q.Charted src) anyFault := by
  have none_listed : ∀ fetch ∈ ([] : List Fetch), fetch.Positioned src ∧ fetch.Grounded src := by simp
  induction performs with
  | pure a p => exact ⟨none_listed, charted⟩
  | throw fault p => exact ⟨none_listed, trivial⟩
  | get p => exact ⟨none_listed, charted⟩
  | modify calm => exact ⟨none_listed, charted.calm calm⟩
  | peek begun run =>
    have met := Parse.peek_charted charted run
    rw [begun] at met
    exact ⟨List.forall_mem_singleton.mpr ⟨met.2, trivial⟩, .of_run run met.1⟩
  | lex looked run =>
    have met := Parse.lex_charted run charted.source charted.exact charted.bound charted.braces
    obtain ⟨_, -, -, -, stop, -⟩ := charted.lookahead _ looked
    rw [stop] at met
    exact ⟨List.forall_mem_singleton.mpr ⟨met.2, _, charted, looked, run⟩, .of_run run met.1⟩
  | rescan looked isSlash run =>
    have met := Parse.rescan_charted charted looked isSlash run
    exact ⟨List.forall_mem_singleton.mpr ⟨met.2, trivial⟩, .of_run run met.1⟩
  | peekFails run | lexFails run | rescanFails run =>
    exact ⟨none_listed, .of_fault run trivial⟩
  | bind run first next ih ih' =>
    have early := ih charted
    have between := early.2.of_ok run
    have late := ih' between
    refine ⟨fun fetch listed => ?_, .into (.of_run run late.2)⟩
    rcases List.mem_append.mp listed with listed | listed
    · exact early.1 fetch listed
    · exact late.1 fetch listed
  | bindFails run first ih =>
    exact ⟨(ih charted).1, .into (.of_fault run trivial)⟩

theorem Parser.load_charted (p : Parser) (src : Source) (strict : Option Bool) (context : Context)
    (braces : List Brace) : (p.load src 0 strict context braces).Charted src where
  source := rfl
  exact := by
    constructor
    · simp [Parser.load, slice_self, Text.lineBreaks]
    · simp [Parser.load, slice_self, Text.lastLineStart]
    · simp [Parser.load, slice_self]
  bound := Nat.zero_le _
  braces := ⟨braces, rfl⟩
  lookahead := nofun

theorem Parser.begin_charted (p : Parser) (code : Text) : (p.begin code).Charted (Parser.sourceOf code) :=
  p.load_charted _ _ _ _

/-- Reading a program has a journal, and however the run is taken apart, all positions are right
after every token that it fetches. -/
theorem program_positions (p : Parser) (code : Text) :
    (∃ journal, Performs (Grammar.deep Grammar.program) (p.begin code) journal) ∧
      ∀ journal, Performs (Grammar.deep Grammar.program) (p.begin code) journal →
        ∀ fetch ∈ journal, fetch.Positioned (Parser.sourceOf code) := by
  obtain ⟨journal, performs, -⟩ := p.program_performs code
  exact ⟨⟨journal, performs⟩, fun _ performs fetch listed =>
    ((performs.positioned (p.begin_charted code)).1 fetch listed).1⟩

/-- The first token of a program that begins with a line break. -/
theorem program_positions_second_line :
    ∃ journal q, Performs (Grammar.deep Grammar.program) (Parser.begin {} (Text.ofString "\na")) journal ∧
      .first q ∈ journal ∧ q.Positioned (Parser.sourceOf (Text.ofString "\na")) 0 ∧
      q.cursor.lineNumber = 2 ∧ q.cursor.lineBreak = some true := by
  have begins : Meets Parse.peek (Parser.begin {} (Text.ofString "\na"))
      (fun _ q => q.cursor.lineNumber = 2 ∧ q.cursor.lineBreak = some true) noFault := by
    decide +kernel
  obtain ⟨_, q, peeked, noted⟩ := begins.exists_ok
  obtain ⟨journal, performs, rests⟩ := Parser.program_performs {} (Text.ofString "\na")
  have first := (rests q peeked).1
  exact ⟨journal, q, performs, first, (program_positions {} _).2 journal performs _ first, noted⟩

end EcmaScript
