import EcmaScript.Proofs.Coupling
import EcmaScript.Proofs.Insertion
import EcmaScript.Proofs.Scripts
import EcmaScript.Proofs.Shortcuts

/-!
Layout does not matter. One parser reads a source, the other one reads it with a blank put in at some
place. In front of the place both do the same. Where a token starts at the place, the second parser
skips the blank, and from there on it reads what the first one does, one character further on. So the
two runs are coupled, as long as the first one does not read across the place; and if it does, no
token that it gives away starts there.
-/

namespace EcmaScript

open List Layout

/-! ### Behind the sentinel -/

section

variable {src : Source} {length : Nat} {c : Cursor} {fails : ScanFault → Cursor → Prop}

/-- Nothing is left of the source but the comment behind the sentinel, or not even that. -/
def Cursor.AtRest (c : Cursor) (src : Source) (length : Nat) : Prop :=
  c.index = length + 4 ∨ c.index = src.size

theorem Layout.skipAll_rest {returns : Unit → Cursor → Prop} (ends : Sealed src length)
    (rest : c.AtRest src length)
    (met : returns () { c with index := src.size, lineBreak := some false }) :
    Meets (skipAll src) c returns fails := by
  rcases rest with behind | atEnd
  · exact skipAll_last (behind ▸ Pairing.ahead_of_sealed ends) (by decide) met
  · refine .modify_bind (.get_bind ?_)
    rw [← atEnd] at met
    refine .into (Scan.atEnd_ite (fun _ => met) fun inside => ?_)
    exact absurd inside (Nat.not_lt.mpr (Nat.le_of_eq atEnd.symm))

theorem Lexer.token_atEnd {strict : Bool} {lineStart : Option Nat} {returns : Token → Cursor → Prop}
    (atEnd : c.index = src.size) (met : returns
      { lexeme := .endOfSource
        lineNumber := c.lineNumber
        lineStart := some c.lineStart
        start := c.index
        stop := c.index } c) : Meets (token src strict lineStart) c returns fails := by
  refine Scan.atEnd_ite (fun _ => met) fun inside => ?_
  exact absurd inside (Nat.not_lt.mpr (Nat.le_of_eq atEnd.symm))

end

variable {src : Source}

theorem Scanned.grows {c d : Cursor} {token : Token}
    (scanned : Scanned src c token d) : c.index ≤ d.index := by
  by_cases isEnd : token.lexeme = .endOfSource
  · obtain ⟨start, stop⟩ := scanned.ended isEnd
    exact Nat.le_of_eq (start.trans stop.symm)
  · exact Nat.le_of_lt (scanned.moved isEnd)

/-- Tokens that differ in their places only. -/
structure Token.Resembles (t u : Token) : Prop where
  lexeme : t.lexeme = u.lexeme
  raw : t.raw = u.raw

theorem Token.Resembles.refl (t : Token) : t.Resembles t :=
  ⟨rfl, rfl⟩

/-- A token of the source on the left with its copy on the right. -/
structure Token.Copies (left right : Source) (t u : Token) : Prop extends t.Resembles u where
  char : left[t.start]? = right[u.start]?
  inner : left.slice (t.start + 1) (t.stop - 1) = right.slice (u.start + 1) (u.stop - 1)

namespace Insertion

variable {s : Insertion} {c d between between' after : Cursor} {t u : Token} {strict : Bool}
variable {lineStart lineStart' : Option Nat} {braces : List Brace}

/-! ### Reading a token on both sides -/

/-- Where the two sides stand: at the same index in front of the place, one index apart behind it, or
each where its source ends. -/
inductive Standing (s : Insertion) (c d : Cursor) : Prop
  | front (index : d.index = c.index) (braces : d.braces = c.braces) (early : c.index ≤ s.pos)
  | behind (aligned : s.window.Aligned c d) (passed : s.pos < c.index) (early : c.index ≤ s.length)
  | ended (rest : c.AtRest s.left s.length) (rest' : d.AtRest s.right (s.length + 1))

theorem Standing.of_front (abreast : s.front.Abreast c d) (early : c.index ≤ s.pos) : s.Standing c d := by
  obtain ⟨inner, opened, opened'⟩ := abreast.braces
  exact .front abreast.index.symm (opened'.trans opened.symm) early

/-- The token `t` on the left is `u` on the right, which stands one index further on if it starts
behind the place. No slash belongs to the sentinel. -/
structure Matches (s : Insertion) (t u : Token) : Prop extends t.Resembles u where
  place : t.stop ≤ s.pos ∧ u.start = t.start ∧ u.stop = t.stop ∨
    s.pos ≤ t.start ∧ u.start = t.start + 1 ∧ u.stop = t.stop + 1
  slash : t.IsSlash → t.stop ≤ s.length

/-- What is left when both sides have read a token. -/
structure Reads (s : Insertion) (t : Token) (c : Cursor) (u : Token) (d : Cursor) : Prop
    extends s.Matches t u where
  standing : s.Standing c d
  lineBreak : c.lineBreak = d.lineBreak

/-- Behind the place the right side reads the token of the left side. -/
theorem token_behind (abreast : s.window.Abreast True between between')
    (early : between.index ≤ s.length + 3)
    (run : Lexer.token s.left strict lineStart between = .ok t after) :
    Meets (Lexer.token s.right strict lineStart') between' (s.Reads t after) (only .exhausted) := by
  obtain ⟨inner, opened, -⟩ := abreast.braces
  have size := s.ends.size_eq
  have scanned := (Lexer.token_meets strict lineStart (by omega) opened).of_ok run
  have tracks := (Lexer.token_tracked strict lineStart).of_ok run
  have follows := s.window.token_follows strict strict lineStart lineStart' abreast.toAligned early
    t after run
  refine (follows.and_returns (Lexer.token_tracked _ _)).imp fun u after' met => ?_
  obtain ⟨read, tracks'⟩ := met
  have behind : s.pos ≤ between.index := abreast.behind
  have start : t.start + (s.pos + 1) = u.start + s.pos := read.start
  have stop : t.stop + (s.pos + 1) = u.stop + s.pos := read.stop
  have index : after.index + (s.pos + 1) = after'.index + s.pos := read.index
  have starts := scanned.start
  have stops := scanned.stop
  have moved := scanned.moved read.notEnd
  have within : after.index ≤ s.length ∨ t.lexeme = .punctuator .semicolon ∧
      after.index = s.length + 4 := read.within
  refine ⟨⟨⟨read.same rfl, read.raw⟩, .inr ⟨by omega, by omega, by omega⟩, fun isSlash => ?_⟩, ?_, ?_⟩
  · rcases within with inCode | ⟨isSemicolon, -⟩
    · omega
    · rcases isSlash with isMark | isMark <;> cases isSemicolon.symm.trans isMark
  · rcases within with inCode | ⟨-, isLast⟩
    · exact .behind read.toAligned (by omega) inCode
    · exact .ended (.inl isLast) (.inl (by omega))
  · rw [tracks.lineBreak, tracks'.lineBreak]
    exact abreast.lineBreak trivial

theorem layout_behind (aligned : s.window.Aligned c d) (passed : s.pos < c.index)
    (early : c.index ≤ s.length)
    (layout : Layout.skipAll s.left { c with lineBreak := some false } = .ok () between) :
    Meets (Layout.skipAll s.right) { d with lineBreak := some false }
      (fun _ between' => s.window.Abreast True between between' ∧ between.index ≤ s.length + 3)
      (only .exhausted) := by
  have index : c.index + (s.pos + 1) = d.index + s.pos := aligned.index
  have abreast : s.window.Abreast True { c with lineBreak := some false }
      { d with lineBreak := some false } :=
    ⟨⟨aligned.behind, aligned.index, aligned.braces⟩, fun _ => rfl⟩
  have follows := s.window.pieces_follow (s.left.size + 1) (s.right.size + 1)
    (decide (c.index = 0)) abreast (Nat.le_add_right_of_le early) () between layout
  -- Neither side is at the very start of its source.
  rw [show decide (c.index = 0) = decide (d.index = 0) by rw [decide_eq_decide]; omega] at follows
  exact .modify_bind (.get_bind follows)

theorem fetch_reads (standing : s.Standing c d) (opened : c.braces = some braces)
    (bound : c.index ≤ s.left.size)
    (layout : Layout.skipAll s.left { c with lineBreak := some false } = .ok () between)
    (run : Lexer.token s.left strict (some between.lineStart) between = .ok t after) :
    c.index ≤ s.pos ∧ t.start ≠ s.pos ∧ s.pos < t.stop ∨
    Meets (Layout.skipAll s.right) { d with lineBreak := some false }
      (fun _ between' => Meets (Lexer.token s.right strict (some between'.lineStart)) between'
        (s.Reads t after) (only .exhausted)) (only .exhausted) := by
  obtain ⟨reach, -⟩ := (skipAll_reaches (by exact bound)).of_ok layout
  have opened' : between.braces = some braces := reach.braces.trans opened
  have scanned := (Lexer.token_meets strict _ reach.bound opened').of_ok run
  have starts := scanned.start
  have stops := scanned.stop
  cases standing with
  | front index braces early =>
    have size := s.pos_lt_size
    have abreast : s.front.Abreast { c with lineBreak := some false } { d with lineBreak := some false } :=
      ⟨Nat.zero_le _, index.symm, ⟨_, opened, braces.trans opened⟩, fun _ => rfl⟩
    by_cases across : between.index ≠ s.pos ∧ s.pos < after.index
    · exact .inl ⟨early, by omega, by omega⟩
    have grown := scanned.grows
    have inCode := s.inCode
    refine .inr ((skipAll_front abreast early layout (by omega)).imp ?_)
    rintro _ between' (⟨before, abreast'⟩ | ⟨isPlace, abreast'⟩)
    · obtain ⟨-, goes⟩ := Overlay.token_repeats (o := s.front) strict strict _ (some between'.lineStart)
        before (Nat.zero_le _) t after run
      refine (goes (show after.index ≤ s.pos by omega) between' abreast').imp ?_
      rintro u after' ⟨copies, stands⟩
      exact ⟨⟨⟨copies.lexeme.facts.2.2.1 rfl, copies.raw⟩,
        .inl ⟨by omega, copies.start.symm, copies.stop.symm⟩, fun _ => by omega⟩,
        .of_front stands (by omega), stands.lineBreak trivial⟩
    · exact token_behind abreast' (by omega) run
  | behind aligned passed early =>
    refine .inr ((layout_behind aligned passed early layout).imp fun _ between' met => ?_)
    exact token_behind met.1 met.2 run
  | ended rest rest' =>
    refine .inr (skipAll_rest s.ends' rest' (Lexer.token_atEnd rfl ?_))
    have left : Meets (Layout.skipAll s.left) { c with lineBreak := some false }
        (fun _ e => e = { c with index := s.left.size, lineBreak := some false }) anyFault :=
      skipAll_rest s.ends rest rfl
    obtain rfl := left.of_ok layout
    have token : Meets (Lexer.token s.left strict (some c.lineStart))
        { c with index := s.left.size, lineBreak := some false } (fun token e =>
          (token.lexeme = .endOfSource ∧ token.raw = none) ∧
          (token.start = s.left.size ∧ token.stop = s.left.size) ∧
          e = { c with index := s.left.size, lineBreak := some false }) anyFault :=
      Lexer.token_atEnd rfl ⟨⟨rfl, rfl⟩, ⟨rfl, rfl⟩, rfl⟩
    obtain ⟨⟨isEnd, raw⟩, ⟨start, stop⟩, rfl⟩ := token.of_ok run
    have size := s.ends.size_eq
    have size' := s.ends'.size_eq
    have inCode := s.inCode
    refine ⟨⟨⟨isEnd, raw⟩, .inr ⟨by omega, ?_, ?_⟩, ?_⟩, .ended (.inr rfl) (.inr rfl), rfl⟩
    · dsimp only
      omega
    · dsimp only
      omega
    · rintro (isMark | isMark) <;> cases isEnd.symm.trans isMark

end Insertion

/-! ### Slashes read again -/

section

variable {src : Source} {p q : Parser} {t : Token} {r : RegExp}

def Parser.rescanned (p : Parser) (after : Cursor) : Parser :=
  { p with scanning := some true, lookahead := none, cursor := after }

theorem Coherent.rescanned {after : Cursor} (coherent : Coherent src p t)
    (braces : ∃ braces, after.braces = some braces) (bound : after.index ≤ src.size) :
    Poised src (p.rescanned after) :=
  ⟨coherent.source, coherent.start, coherent.context, braces, bound⟩

/-- A slash that is read again is read where it started, and then the next token is fetched. -/
theorem Parse.rescan_ok (coherent : Coherent src p t) (isSlash : t.IsSlash)
    (run : rescan p = .ok r q) : ∃ after given,
      RegExp.scan src { p.cursor with index := t.start, lineBreak := some false } = .ok r after ∧
      lex (p.rescanned after) = .ok given q := by
  obtain ⟨mark, between, after, given, start, layout, scanned, lexed⟩ := (rescan_ok_iff coherent.source).mp run
  obtain ⟨found, plain⟩ := coherent.slash isSlash
  have index : mark.index = t.start := by simpa [start] using coherent.start_eq
  -- The layout in front of the slash has been skipped already.
  have solid : Layout.Solid src (mark.index = 0) mark.index := .of_slash (index ▸ found) (index ▸ plain)
  obtain rfl := skipAll_solid_ok (by exact solid) layout
  exact ⟨after, given, index ▸ scanned, lexed⟩

theorem Parse.rescan_spent {later : RegExp → Parser → Prop} (coherent : Coherent src p t)
    (isSlash : t.IsSlash)
    (reads : Meets (RegExp.scan src) { p.cursor with index := t.start, lineBreak := some false }
      (fun r after => Meets lex (p.rescanned after) (fun _ q => later r q)
        (only .exhausted)) (only .exhausted)) : Meets rescan p later (only .exhausted) := by
  obtain ⟨mark, index, start⟩ := coherent.sees.startMark_eq
  obtain ⟨found, plain⟩ := coherent.slash isSlash
  unfold Meets
  rw [rescan, bind_of_ok start]
  refine Meets.modify_bind (.into ?_)
  have solid : Layout.Solid src (mark.index = 0) mark.index := .of_slash (index ▸ found) (index ▸ plain)
  refine Pairing.regExp_spent coherent.source (skipAll_solid (by exact solid) ?_)
  rw [← index] at reads
  refine reads.imp fun r after lexes => .into (.into ?_)
  exact lexes.imp fun _ _ met => met

end

namespace Insertion

open Parse

variable {s : Insertion} {p q p' q' : Parser} {t u : Token}

/-! ### The two runs -/

/-- The parsers belong together. As long as the place has not been reached no token was taken that
starts there. -/
structure Together (s : Insertion) (p q : Parser) : Prop extends p.Concurs q where
  settings : p.settings = q.settings
  tokens : ∃ t u, Coherent s.left p t ∧ Coherent s.right q u ∧ s.Matches t u
  standing : s.Standing p.cursor q.cursor
  lineBreak : p.cursor.lineBreak = q.cursor.lineBreak
  untaken : p.cursor.index ≤ s.pos → s.pos ∉ p.taken

/-- The left side has read across the place. -/
def Missed (s : Insertion) (p : Parser) : Prop :=
  ∃ t, Coherent s.left p t ∧ t.start ≠ s.pos ∧ s.pos < t.stop ∧ s.pos ∉ p.taken

theorem taken_giving (coherent : Coherent s.left p t) : p.giving.taken = t.start :: p.taken := by
  simp [Parser.giving, coherent.start_eq]

/-- A token starts before it stops, if it stops by the place. -/
theorem start_lt (coherent : Coherent s.left p t) (early : t.stop ≤ s.pos) : t.start < s.pos := by
  have size := s.pos_lt_size
  by_cases isEnd : t.lexeme = .endOfSource
  · have ended := coherent.ended isEnd
    omega
  · have moved := coherent.moved isEnd
    omega

theorem Matches.copies (found : s.Matches t u) (coherent : Coherent s.left p t) :
    t.Copies s.left s.right u := by
  have bound := coherent.bound
  have stop := coherent.stop_eq
  have size := s.pos_lt_size
  rcases found.place with ⟨early, start', stop'⟩ | ⟨behind, start', stop'⟩
  · refine ⟨found.toResembles, ?_, ?_⟩
    · rw [start', s.before (start_lt coherent early)]
    · rw [start', stop']
      exact (s.front.slice_eq (Nat.zero_le _) rfl (fun _ => Iff.rfl) (show t.stop - 1 ≤ s.pos by omega)).symm
  · refine ⟨found.toResembles, ?_, ?_⟩
    · rw [start', s.after behind]
    · have stops : 0 < t.stop := by
        by_cases isEnd : t.lexeme = .endOfSource
        · have ended := coherent.ended isEnd
          omega
        · exact Nat.zero_lt_of_lt (coherent.moved isEnd)
      rw [start', stop']
      refine s.window.slice_eq (Nat.le_succ_of_le behind) ?_ ?_ (show t.stop - 1 ≤ s.left.size by omega)
      · show t.start + 1 + (s.pos + 1) = t.start + 1 + 1 + s.pos
        omega
      · show t.stop - 1 + (s.pos + 1) = t.stop + 1 - 1 + s.pos
        omega

theorem fetched_together {last last' : Mark} {between between' after after' : Cursor}
    (concurs : p.Concurs q) (settings : p.settings = q.settings) (left : Coherent s.left (p.fetched last between after t) t)
    (right : Coherent s.right (q.fetched last' between' after' u) u)
    (reads : s.Reads t after u after') (untaken : after.index ≤ s.pos → s.pos ∉ p.taken) :
    s.Together (p.fetched last between after t) (q.fetched last' between' after' u) where
  settings
  strict := concurs.strict
  context := concurs.context
  bindingElement := concurs.bindingElement
  assignmentTarget := concurs.assignmentTarget
  covered := concurs.covered
  tokens := ⟨t, u, left, right, reads.toMatches⟩
  standing := reads.standing
  lineBreak := reads.lineBreak
  untaken := untaken

section

variable (concurs : p.Concurs q) (settings : p.settings = q.settings) (left : Poised s.left p)
variable (right : Poised s.right q) (standing : s.Standing p.cursor q.cursor)
include concurs settings left right standing

/-- From corresponding states both sides fetch the same token, unless the left one reads across the
place. -/
theorem fetch_together (last : Mark) {between after : Cursor}
    (layout : Layout.skipAll s.left { p.cursor with lineBreak := some false } = .ok () between)
    (reads : Lexer.token s.left p.isStrict (some between.lineStart) between = .ok t after)
    (untaken : p.cursor.index ≤ s.pos → s.pos ∉ p.taken) : s.Missed (p.fetched last between after t) ∨
      Meets (Layout.skipAll s.right) { q.cursor with lineBreak := some false }
        (fun _ between' => Meets (Lexer.token s.right q.isStrict (some between'.lineStart)) between'
          (fun u after' => ∀ last', s.Together (p.fetched last between after t)
            (q.fetched last' between' after' u)) (only .exhausted)) (only .exhausted) := by
  have lexed : Lexed s.left p (p.fetched last between after t) :=
    ((fetch_meets left p.isStrict).of_ok layout).of_ok reads last
  obtain ⟨⟨token, coherent⟩, place, -, -, -⟩ := lexed
  obtain rfl : t = token := Option.some.inj coherent.lookahead
  have reached : p.cursor.index ≤ after.index := Nat.le_trans place coherent.place_le
  obtain ⟨braces, opened⟩ := left.braces
  rcases fetch_reads standing opened left.bound layout reads with ⟨early, apart, across⟩ | met
  · exact .inl ⟨t, coherent, apart, across, untaken early⟩
  refine .inr ((met.and_returns ((fetch_meets right q.isStrict).mono (fun _ _ met => met)
    fun _ _ _ => trivial)).imp fun _ between' met => ?_)
  have strict : q.isStrict = p.isStrict := by rw [Parser.isStrict, Parser.isStrict, concurs.strict]
  rw [← strict] at met
  refine (met.1.and_returns (met.2.mono (fun _ _ met => met) fun _ _ _ => trivial)).imp ?_
  rintro u after' ⟨reads, lexed⟩ last'
  obtain ⟨⟨token', coherent'⟩, -, -, -, -⟩ := lexed last'
  obtain rfl : u = token' := Option.some.inj coherent'.lookahead
  exact fetched_together concurs settings coherent coherent' reads fun early =>
    untaken (Nat.le_trans reached early)

theorem lex_together (untaken : p.cursor.index ≤ s.pos → s.pos ∉ p.giving.taken) :
    MirrorsUnless s.Missed .exhausted lex lex p q fun _ p' _ q' => s.Together p' q' := by
  intro given p' run
  obtain ⟨between, after, t, layout, reads, -, rfl⟩ := (lex_ok_iff left.source).mp run
  have fetched := fetch_together (p := p.giving) (q := q.giving) { concurs with } settings
    ⟨left.source, left.start, left.context, left.braces, left.bound⟩
    ⟨right.source, right.start, right.context, right.braces, right.bound⟩ standing p.cursor.toMark layout reads
    untaken
  exact fetched.imp_right fun met => lex_spent right.source
    (met.imp fun _ _ met => met.imp fun _ _ together => together _)

theorem peek_together (untaken : s.pos ∉ p.taken) :
    MirrorsUnless s.Missed .exhausted peek peek p q fun _ p' _ q' => s.Together p' q' := by
  intro _ p' run
  obtain ⟨between, after, t, layout, reads, rfl⟩ := (peek_ok_iff left.source).mp run
  have fetched := fetch_together concurs settings left right standing between.toMark layout reads
    fun _ => untaken
  exact fetched.imp_right fun met => peek_spent right.source
    (met.imp fun _ _ met => met.imp fun _ _ together => together _)

end

theorem lex_missed (poised : Poised s.left p) (passed : s.pos < p.cursor.index)
    (untaken : s.pos ∉ p.giving.taken) : Meets lex p (fun _ p' => s.Missed p') anyFault := by
  refine .of_returns fun given p' run => ?_
  obtain ⟨⟨token, coherent⟩, place, -, -, -⟩ := ((lex_meets poised).of_ok run).2.1
  obtain ⟨between, after, t, -, -, -, rfl⟩ := (lex_ok_iff poised.source).mp run
  have stop := coherent.place_le
  have stops := coherent.stop_eq
  rw [coherent.place_eq] at place stop
  exact ⟨token, coherent, by omega, by omega, untaken⟩

theorem Together.fetches (together : s.Together p q) :
    MirrorsUnless s.Missed .exhausted lex lex p q fun _ p' _ q' => s.Together p' q' := by
  obtain ⟨t, u, left, right, -⟩ := together.tokens
  refine lex_together together.toConcurs together.settings left.toPoised right.toPoised together.standing fun early => ?_
  have stop := left.stop_eq
  have start := start_lt left (by omega)
  rw [taken_giving left, mem_cons, not_or]
  exact ⟨by omega, together.untaken early⟩

theorem Missed.fetches (missed : s.Missed p) : Meets lex p (fun _ p' => s.Missed p') anyFault := by
  obtain ⟨t, coherent, apart, across, untaken⟩ := missed
  refine lex_missed coherent.toPoised (coherent.stop_eq ▸ across) ?_
  rw [taken_giving coherent, mem_cons, not_or]
  exact ⟨apart.symm, untaken⟩

theorem Together.rescans (together : s.Together p q) (looked : p.lookahead = some t)
    (isSlash : t.IsSlash) : MirrorsUnless s.Missed .exhausted rescan rescan p q fun r p' r' q' =>
      (r.pattern = r'.pattern ∧ r.flags = r'.flags ∧ r.raw = r'.raw) ∧ s.Together p' q' := by
  obtain ⟨t', u, left, right, found⟩ := together.tokens
  obtain rfl : t' = t := Option.some.inj (left.lookahead.symm.trans looked)
  have isSlash' : u.IsSlash := by rw [Token.IsSlash, ← found.lexeme]; exact isSlash
  have inCode := found.slash isSlash
  have stop := left.stop_eq
  intro r p' run
  obtain ⟨after, given, scanned, lexed⟩ := rescan_ok left isSlash run
  obtain ⟨here, -⟩ := left.slash isSlash
  obtain ⟨reach, moved⟩ := (RegExp.scan_reaches (by exact here)).of_ok scanned
  have poised := left.rescanned (reach.braces ▸ left.braces) reach.bound
  have concurs (after' : Cursor) : (p.rescanned after).Concurs (q.rescanned after') :=
    { together.toConcurs with }
  have size := s.pos_lt_size
  by_cases missed : s.Missed p'
  · exact .inl missed
  refine .inr (rescan_spent right isSlash' ?_)
  rcases found.place with ⟨early, start', -⟩ | ⟨behind, start', -⟩
  · -- The slash is in front of the place. So is the whole literal, since nothing was missed.
    have before := start_lt left early
    have notTaken : s.pos ∉ (p.rescanned after).giving.taken := by
      show s.pos ∉ p.giving.taken
      rw [taken_giving left, mem_cons, not_or]
      exact ⟨by omega, together.untaken (by omega)⟩
    have inFront : after.index ≤ s.pos := by
      refine Nat.not_lt.mp fun across => missed ?_
      have stays := (lex_missed poised across notTaken).of_ok lexed
      exact stays
    have braces : q.cursor.braces = p.cursor.braces := by
      cases together.standing with
      | front _ braces _ => exact braces
      | behind _ passed _ => omega
      | ended rest _ =>
        have ends := s.ends.size_eq
        rcases rest with isLast | isLast <;> omega
    obtain ⟨inner, opened⟩ := left.braces
    obtain ⟨-, goes⟩ := Overlay.regExp_repeats (o := s.front) here (Nat.zero_le _) r after scanned
    have abreast : s.front.Abreast { p.cursor with index := t'.start, lineBreak := some false }
        { q.cursor with index := u.start, lineBreak := some false } :=
      ⟨Nat.zero_le _, start'.symm, ⟨inner, opened, braces.trans opened⟩, fun _ => rfl⟩
    refine (goes inFront _ abreast).imp ?_
    rintro r' after' ⟨same, stands⟩
    obtain ⟨inner', -, opened'⟩ := stands.braces
    have index : after.index = after'.index := stands.index
    have poised' := right.rescanned ⟨_, opened'⟩ (show after'.index ≤ s.right.size by omega)
    have lexes := lex_together (concurs after') together.settings poised poised' (.of_front stands inFront)
      fun _ => notTaken
    exact ((lexes given p' lexed).resolve_left missed).imp fun _ _ met => ⟨same, met⟩
  · -- The slash is behind the place, and the literal is found one index further on.
    have passed : s.pos < p.cursor.index := by
      have start := left.place_lt (by rcases isSlash with isMark | isMark <;> simp [isMark])
      rw [left.place_eq] at start
      omega
    have braces : ∃ inner, p.cursor.braces = some inner ∧ q.cursor.braces = some inner := by
      cases together.standing with
      | front _ _ early => omega
      | behind aligned _ _ => exact aligned.braces
      | ended rest _ =>
        have ends := s.ends.size_eq
        rcases rest with isLast | isLast <;> omega
    have aligned : s.window.Aligned { p.cursor with index := t'.start, lineBreak := some false }
        { q.cursor with index := u.start, lineBreak := some false } :=
      ⟨behind, show t'.start + (s.pos + 1) = u.start + s.pos by omega, braces⟩
    have early : t'.start ≤ s.length := by
      have start := left.place_le
      rw [left.place_eq] at start
      omega
    refine (s.window.regExp_follows aligned here early r after scanned).imp fun r' after' met => ?_
    obtain ⟨pattern, flags, raw, aligned', early'⟩ := met
    have index : after.index + (s.pos + 1) = after'.index + s.pos := aligned'.index
    have moved : t'.start < after.index := moved
    obtain ⟨inner, -, opened⟩ := aligned'.braces
    have early' : after.index ≤ s.length := early'
    have size' := s.ends'.size_eq
    have poised' := right.rescanned ⟨inner, opened⟩ (show after'.index ≤ s.right.size by omega)
    have standing : s.Standing after after' := .behind aligned' (by omega) early'
    have lexes := lex_together (concurs after') together.settings poised poised' standing fun inFront =>
      absurd inFront (show ¬ after.index ≤ s.pos by omega)
    exact ((lexes given p' lexed).resolve_left missed).imp fun _ _ met => ⟨⟨pattern, flags, raw⟩, met⟩

theorem Missed.rescans (missed : s.Missed p) (looked : p.lookahead = some t) (isSlash : t.IsSlash) :
    Meets rescan p (fun _ p' => s.Missed p') anyFault := by
  obtain ⟨t', coherent, apart, across, untaken⟩ := missed
  obtain rfl : t' = t := Option.some.inj (coherent.lookahead.symm.trans looked)
  refine .of_returns fun r p' run => ?_
  obtain ⟨after, given, scanned, lexed⟩ := rescan_ok coherent isSlash run
  obtain ⟨here, -⟩ := coherent.slash isSlash
  obtain ⟨reach, -⟩ := (RegExp.scan_reaches (by exact here)).of_ok scanned
  have long := (RegExp.scan_along.of_ok scanned).2.2.1
  have short : t'.stop ≤ t'.start + 2 := by
    rcases isSlash with isMark | isMark
    · exact Nat.le_trans (Nat.le_of_eq (coherent.mark _ isMark).2) (Nat.le_succ _)
    · exact Nat.le_of_eq (coherent.mark _ isMark).2
  have passed : s.pos < after.index := Nat.lt_of_lt_of_le across (Nat.le_trans short long)
  have poised := coherent.rescanned (reach.braces ▸ coherent.braces) reach.bound
  have notTaken : s.pos ∉ (p.rescanned after).giving.taken := by
    show s.pos ∉ p.giving.taken
    rw [taken_giving coherent, mem_cons, not_or]
    exact ⟨apart.symm, untaken⟩
  have missed := (lex_missed poised passed notTaken).of_ok lexed
  exact missed

/-! ### The coupling -/

theorem quiet_coherent (coherent : Coherent src p t) (quiet : p.Quiet p') :
    ∃ precedence, Coherent src p' { t with precedence } := by
  have looks := quiet.lookahead
  rw [coherent.lookahead, Option.map_some] at looks
  obtain ⟨t', looked, same⟩ := Option.map_eq_some_iff.mp looks
  have noted : t' = { t with precedence := t'.precedence } :=
    congrArg (fun token : Token => { token with precedence := t'.precedence }) same
  obtain ⟨mark, last⟩ := coherent.last
  obtain ⟨context, opened⟩ := coherent.context
  exact ⟨t'.precedence,
    { coherent with
      source := quiet.source.trans coherent.source
      start := quiet.start ▸ coherent.start
      context := Option.isSome_iff_exists.mp (quiet.context (by rw [opened]; rfl))
      braces := quiet.cursor ▸ coherent.braces
      bound := quiet.cursor ▸ coherent.bound
      lookahead := looked.trans (congrArg some noted)
      start_eq := quiet.start ▸ coherent.start_eq
      last := Option.isSome_iff_exists.mp (quiet.last (by rw [last]; rfl))
      stop_eq := quiet.cursor ▸ coherent.stop_eq }⟩

theorem Together.quiet (together : s.Together p q) (quiet : p.Quiet p') (quiet' : q.Quiet q')
    (concurs : p'.Concurs q') : s.Together p' q' := by
  obtain ⟨t, u, left, right, found⟩ := together.tokens
  obtain ⟨precedence, left⟩ := quiet_coherent left quiet
  obtain ⟨precedence', right⟩ := quiet_coherent right quiet'
  exact
    { concurs with
      settings := quiet.settings.trans (together.settings.trans quiet'.settings.symm)
      tokens := ⟨_, _, left, right, ⟨⟨found.lexeme, found.raw⟩, found.place, found.slash⟩⟩
      standing := quiet.cursor ▸ quiet'.cursor ▸ together.standing
      lineBreak := quiet.cursor ▸ quiet'.cursor ▸ together.lineBreak
      untaken := quiet.cursor ▸ quiet.taken ▸ together.untaken }

theorem Missed.quiet (missed : s.Missed p) (quiet : p.Quiet p') : s.Missed p' := by
  obtain ⟨t, coherent, apart, across, untaken⟩ := missed
  obtain ⟨precedence, coherent'⟩ := quiet_coherent coherent quiet
  exact ⟨_, coherent', apart, across, quiet.taken ▸ untaken⟩

theorem quiet_relocated (coherent : Coherent src p t) :
    p.Quiet { p with last := p.start } :=
  ⟨⟨rfl, rfl, rfl, rfl, rfl⟩, fun _ => Option.isSome_iff_exists.mpr coherent.start, id, rfl⟩

/-- The runs over the source with and without the blank. -/
def coupling (s : Insertion) : Coupling where
  token := Token.Resembles
  pair := s.Together
  missed _ := s.Missed
  refl := .refl
  lexeme same := same.lexeme.symm
  raw same := same.raw.symm
  concurs := Together.toConcurs
  lookahead together looked := by
    obtain ⟨t, u, left, right, found⟩ := together.tokens
    cases left.lookahead.symm.trans looked
    exact ⟨u, right.lookahead, found.toResembles⟩
  changed together unmoved unmoved' := together.quiet unmoved.quiet unmoved'.quiet
  entered _ together := together.quiet ⟨⟨rfl, rfl, rfl, rfl, rfl⟩, id, fun _ => rfl, rfl⟩
    ⟨⟨rfl, rfl, rfl, rfl, rfl⟩, id, fun _ => rfl, rfl⟩ { together.toConcurs with context := rfl }
  stricter _ together := together.quiet ⟨⟨rfl, rfl, rfl, rfl, rfl⟩, id, id, rfl⟩
    ⟨⟨rfl, rfl, rfl, rfl, rfl⟩, id, id, rfl⟩ { together.toConcurs with strict := rfl }
  relocated together := by
    obtain ⟨t, u, left, right, -⟩ := together.tokens
    exact together.quiet (quiet_relocated left) (quiet_relocated right) { together.toConcurs with }
  fetches _ := Together.fetches
  rescans _ := Together.rescans
  missed_recalled _ missed := missed
  missed_quiet := Missed.quiet
  missed_relocated missed := by
    obtain ⟨t, coherent, -⟩ := id missed
    exact Missed.quiet missed (quiet_relocated coherent)
  missed_fetch := Missed.fetches
  missed_rescan := Missed.rescans

/-! ### Places -/

open Grammar

variable {hands : List Node} {apart : Bool} {situation : Situation} {α : Type}

/-- The source that is read on the right: once the runs have come apart, it is the one on the left. -/
def side (s : Insertion) (apart : Bool) : Source :=
  bif apart then s.left else s.right

theorem side_sealed (s : Insertion) (apart : Bool) : ∃ length, Sealed (s.side apart) length := by
  cases apart with
  | true => exact ⟨_, s.ends⟩
  | false => exact ⟨_, s.ends'⟩

theorem holds_tokens (holds : s.coupling.Holds hands apart p q) : ∃ t u, Coherent s.left p t ∧
    Coherent (s.side apart) q u ∧ t.Copies s.left (s.side apart) u := by
  cases apart with
  | true =>
    obtain ⟨rfl, t, coherent, -⟩ := holds
    exact ⟨t, t, coherent, coherent, .refl t, rfl, rfl⟩
  | false =>
    obtain ⟨t, u, left, right, found⟩ := Together.tokens holds
    exact ⟨t, u, left, right, found.copies left⟩

/-- Computations that depend on the lookahead and the source around it are compared for tokens that are
copies. -/
theorem takes_of_copies [Bears α] {m n : ParseM α} {see see' : Source → Token → ParseM α}
    {alike : α → α → Prop}
    (left : ∀ {src length p t}, Sealed src length → Coherent src p t → m p = see src t p)
    (right : ∀ {src length q u}, Sealed src length → Coherent src q u → n q = see' src u q)
    (takes : ∀ {right t u}, t.Copies s.left right u →
      s.coupling.comparison.Takes situation [] (see s.left t) (see' right u) alike) :
    s.coupling.comparison.Takes situation [] m n alike := by
  intro base apart p q holds
  obtain ⟨t, u, here, there, copies⟩ := holds_tokens holds
  obtain ⟨length, ends⟩ := s.side_sealed apart
  exact Coupling.at_congr (left s.ends here) (fun _ => right ends there)
    (takes copies base apart p q holds)

theorem maintains_of_copies {m : ParseM α} (see : Source → Token → α)
    (sees : ∀ {src p t}, Coherent src p t → m p = .ok (see src t) p)
    (agree : ∀ {right t u}, t.Copies s.left right u → see s.left t = see right u) :
    s.coupling.comparison.Maintains situation m m := by
  refine @takes_of_copies s situation α .none m m (fun src t => pure (see src t))
    (fun src t => pure (see src t)) _ (fun _ => sees) (fun _ => sees) fun copies => ?_
  rw [agree copies]
  exact .pure trivial .refl

theorem firstCharacter_maintains :
    s.coupling.comparison.Maintains situation firstCharacter? firstCharacter? := by
  refine maintains_of_copies (fun src t => src[t.start]?) (fun coherent => ?_) fun copies => copies.char
  obtain ⟨mark, index, start⟩ := coherent.sees.startMark_eq
  rw [firstCharacter?, bind_of_ok coherent.sees.source_eq, bind_of_ok start, index]
  rfl

theorem startCharacter_maintains :
    s.coupling.comparison.Maintains situation startCharacter startCharacter := by
  let see (src : Source) (t : Token) : ParseM CodePoint := src[t.start]?.elim (throw .pastEnd) pure
  have sees {src : Source} {length : Nat} {p : Parser} {t : Token} (_ : Sealed src length)
      (coherent : Coherent src p t) : startCharacter p = see src t p := by
    obtain ⟨mark, index, start⟩ := coherent.sees.startMark_eq
    rw [startCharacter, bind_of_ok start, index, characterAt, bind_of_ok coherent.sees.source_eq]
    cases found : src[t.start]? <;> simp only [see, found] <;> rfl
  refine @takes_of_copies s situation _ .none _ _ see see _ sees sees fun {right _ u} copies => ?_
  simp only [see, copies.char]
  cases right[u.start]? with
  | some c => exact .pure trivial .refl
  | none => exact .throw (by simp)

def quotedStatement (token : Token) (statement : Node) :
    ParseM (Option (Token × Node × Option Text)) := do
  if ← isDirective statement then do
    let src ← source
    pure (some (token, statement, some (src.slice (token.start + 1) (token.stop - 1))))
  else pure (some (token, statement, none))

theorem quotedStatement_eq (coherent : Coherent src p u) (token : Token) (e : Node) :
    quotedStatement token (.expressionStatement e) p = .ok (some (token, .expressionStatement e,
      if e.isLiteral then some (src.slice (token.start + 1) (token.stop - 1)) else none)) p := by
  show (if e.isLiteral then source >>= _ else _ : ParseM _) p = _
  split
  · rw [bind_of_ok coherent.sees.source_eq]
    rfl
  · rfl

theorem stringStatement?_eq (coherent : Coherent src p t) (reader : Reader) :
    stringStatement? reader p = (match t.lexeme with
      | .string _ _ => reader .listItem >>= quotedStatement t
      | _ => pure none) p := by
  rw [stringStatement?, bind_of_ok coherent.inside_eq]
  by_cases isEnd : t.lexeme = .endOfSource
  · simp [isEnd]
  · rw [if_pos (decide_eq_true isEnd), bind_of_ok coherent.sees.lookahead_eq]
    rfl

/-- The text between the quotes of a string is cut out of the source, at places that differ on the two
sides. -/
theorem strings_taken {reader reader' : Reader} (trusts : s.coupling.comparison.Trusts reader reader') :
    s.coupling.comparison.Takes situation [] (stringStatement? reader) (stringStatement? reader')
      s.coupling.comparison.SameStatement := by
  intro base apart p q holds
  obtain ⟨t, u, here, there, copies⟩ := holds_tokens holds
  have known : s.coupling.comparison.token t u := copies.toResembles
  refine Coupling.at_congr (stringStatement?_eq here reader) (fun _ => stringStatement?_eq there reader') ?_
  rw [← copies.lexeme]
  split
  · refine Coupling.bind_at (trusts.listItem (s := situation) base apart p q holds) ?_
    rintro statement _ apart' p' q' stays - ⟨rfl, stated⟩ holds'
    obtain ⟨_, _, here', there', -⟩ := holds_tokens holds'
    cases statement
    case expressionStatement e =>
      have same (text : Option Text) : s.coupling.At (pure (some (t, Node.expressionStatement e, text)))
          (pure (some (u, .expressionStatement e, text))) s.coupling.comparison.SameStatement base apart'
          p' q' :=
        Coupling.pure_at holds' (.some (s.coupling.comparison.self known) text stated) (.some known text stated)
      refine Coupling.at_congr (quotedStatement_eq here' t e) (fun together => ?_) (same _)
      -- Neither side has missed anything, so the token on the right is still the copy.
      obtain rfl : apart = false := Bool.eq_false_of_not_eq_true fun isApart => by simp [stays isApart] at together
      subst together
      rw [quotedStatement_eq there' u e, ← copies.inner]
      rfl
    all_goals exact Coupling.never trivial
  · exact Coupling.pure_at holds .none .none

theorem coupling_places (s : Insertion) : s.coupling.comparison.Places where
  inside := by
    refine maintains_of_copies (fun _ t => decide (t.lexeme ≠ .endOfSource))
      (fun coherent => coherent.inside_eq) fun copies => ?_
    rw [copies.lexeme]
  afterLineBreak := by
    intro _ base apart p q holds
    cases apart with
    | true => exact ⟨⟨rfl, trivial⟩, holds.2⟩
    | false =>
      intro _ _ run
      cases run
      exact .inr ⟨⟨by rw [Together.lineBreak holds], trivial⟩, holds⟩
  firstCharacter := firstCharacter_maintains
  startCharacter := startCharacter_maintains
  strings := strings_taken
  breaks tails := by
    refine takes_of_copies breakStatement_eq_plain breakStatement_eq_plain fun _ => ?_
    exact .after fun _ => tails false
  returns tails := by
    refine takes_of_copies returnStatement_eq_plain returnStatement_eq_plain fun _ => ?_
    refine .after fun _ => .learn Comparison.context_upholds fun _ _ => ?_
    exact .ite (tails False.elim).2 .complain
  imports := by
    refine Comparison.Switched.of_settings (d := s.coupling.comparison) ?_
    intro _ base apart p q holds
    cases apart with
    | true => exact ⟨rfl, holds.2⟩
    | false =>
      intro _ _ run
      cases run
      exact .inr ⟨(Together.settings holds).symm, holds⟩

/-- All rules read the same from both sides. -/
def discipline (s : Insertion) : Discipline where
  toComparison := s.coupling.comparison
  places := s.coupling_places
  scopes := s.coupling.lax.scopes

end Insertion

/-! ### Programs -/

section

open Grammar Parse

variable {settings : Settings} {code : Text} {node : Node} {pos : Nat} {blank : CodePoint}

def Insertion.ofText (code : Text) (inCode : pos < code.length)
    (isBlank : blank ∈ Character.whiteSpace) : Insertion :=
  have length : (code.take pos).length = pos := length_take_of_le (Nat.le_of_lt inCode)
  have left : code ++ Parser.sentinel = code.take pos ++ (code.drop pos ++ Parser.sentinel) := by
    rw [← append_assoc, take_append_drop]
  have right : code.take pos ++ blank :: code.drop pos ++ Parser.sentinel =
      code.take pos ++ blank :: (code.drop pos ++ Parser.sentinel) := by simp
  { left := Parser.sourceOf code
    right := Parser.sourceOf (code.take pos ++ blank :: code.drop pos)
    pos
    length := code.length
    blank
    isBlank
    before := fun {i} early => by
      rw [Parser.sourceOf, Parser.sourceOf, left, right, Source.ofText, Source.ofText,
        List.getElem?_toArray, List.getElem?_toArray, List.getElem?_append_left (by omega),
        List.getElem?_append_left (by omega)]
    here := by
      rw [Parser.sourceOf, right, Source.ofText, List.getElem?_toArray,
        List.getElem?_append_right (Nat.le_of_eq length), length, Nat.sub_self]
      rfl
    after := fun {i} behind => by
      rw [Parser.sourceOf, Parser.sourceOf, left, right, Source.ofText, Source.ofText,
        List.getElem?_toArray, List.getElem?_toArray, List.getElem?_append_right (by omega),
        List.getElem?_append_right (by omega), length, Nat.succ_sub behind]
      rfl
    inCode
    ends := .ofText code
    ends' := by
      have ends := Sealed.ofText (code.take pos ++ blank :: code.drop pos)
      rwa [show (code.take pos ++ blank :: code.drop pos).length = code.length + 1 by
        rw [length_append, length_cons, length_drop, length]
        omega] at ends }

/-- Where the tokens start that are taken when a program is read, the last one first. A regular
expression is one token. -/
def tokenStarts (settings : Settings) (code : Text) : List Nat :=
  match Parser.program { settings } code with
  | .ok _ p => p.taken
  | .error _ p => p.taken

/-- A blank in front of a token leaves the tree of a program as it is. -/
theorem parse_insert_blank (parsed : parse settings code = .ok node)
    (isStart : pos ∈ tokenStarts settings code) (inCode : pos < code.length)
    (isBlank : blank ∈ Character.whiteSpace) :
    parse settings (code.take pos ++ blank :: code.drop pos) = .ok node := by
  obtain ⟨final, run⟩ : ∃ final, Parser.program { settings } code = .ok node final := by
    unfold parse at parsed
    split at parsed
    next final run => exact ⟨final, Except.ok.inj parsed ▸ run⟩
    next => cases parsed
  have taken : pos ∈ final.taken := by simpa only [tokenStarts, run] using isStart
  obtain ⟨p, body, peeked, script, rfl⟩ := program_ok run
  let s : Insertion := .ofText code inCode isBlank
  have couples := Discipline.scriptBody_upholds (d := s.discipline) (s := { context := {}, loose := true })
    rfl (Discipline.readerOf_trusts (depthFor (some s.left)) (depthFor (some s.right))) []
  -- The token was taken, so nothing has been read across the place in the end.
  have reached : ¬ s.Missed final := fun ⟨_, _, _, _, untaken⟩ => untaken taken
  have first := s.peek_together (p := Parser.begin { settings } code)
    (q := Parser.begin { settings } (code.take pos ++ blank :: code.drop pos)) ⟨rfl, rfl, rfl, rfl, rfl⟩ rfl
    (.of_begin _ _) (.of_begin _ _) (.front rfl rfl (Nat.zero_le _)) not_mem_nil
  rcases first () p peeked with missed | peeks
  · have stays := Meets.of_ok script (couples true p p ⟨rfl, missed⟩)
    exact absurd stays.2 reached
  · have scripts : Meets peek (Parser.begin { settings } (code.take pos ++ blank :: code.drop pos))
        (fun _ q => Meets (scriptBody (readerFor (code.take pos ++ blank :: code.drop pos))) q
          (fun found _ => found = body) (only .exhausted)) (only .exhausted) := by
      refine peeks.imp fun _ q together => ?_
      have goes := (couples false p q together body final script).resolve_left fun met => reached met.2
      exact goes.imp fun _ _ met => met.1.1.symm
    obtain ⟨body', parsed', same⟩ := parse_of_meets scripts
    rw [parsed', same]

theorem pattern_parsed : (match parse {} (Text.ofString "if (a) /=[/ ]/g\n++b") with
    | .ok (.program [_, _]) => true
    | _ => false) = true := by decide +kernel

/-- A no-break space in front of a regular expression that starts where a slash and an equals sign
would be an operator. -/
theorem parse_insert_blank_pattern :
    ∃ body, parse {} (Text.ofString "if (a) /=[/ ]/g\n++b") = .ok (.program body) ∧
      body.length = 2 ∧ 7 ∈ tokenStarts {} (Text.ofString "if (a) /=[/ ]/g\n++b") ∧
      parse {} (Text.ofString "if (a) " ++ 0xA0 :: Text.ofString "/=[/ ]/g\n++b") =
        .ok (.program body) := by
  have shape := pattern_parsed
  split at shape
  case h_2 => cases shape
  next first second parsed =>
    have isStart : 7 ∈ tokenStarts {} (Text.ofString "if (a) /=[/ ]/g\n++b") := by decide +kernel
    have inserted : Text.ofString "if (a) " ++ 0xA0 :: Text.ofString "/=[/ ]/g\n++b" =
        (Text.ofString "if (a) /=[/ ]/g\n++b").take 7 ++
          0xA0 :: (Text.ofString "if (a) /=[/ ]/g\n++b").drop 7 := by decide +kernel
    refine ⟨_, parsed, rfl, isStart, ?_⟩
    rw [inserted]
    exact parse_insert_blank parsed isStart (by decide +kernel) (by decide)

end

end EcmaScript
