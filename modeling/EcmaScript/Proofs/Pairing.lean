import EcmaScript.Proofs.Coherence
import EcmaScript.Proofs.Legibility
import EcmaScript.Proofs.MirroredTokens

/-!
Two parsers side by side, one on each side of a window. Their lookaheads are copies of each other, so
that every test a rule makes comes out alike, and taking the lookahead brings both to the next token.
The code on the left may be stricter than the one on the right. Behind the semicolon that closes the
program on the left the two part: the left one has come to its end, and what lies beyond on the right
is up to the pairing.
-/

namespace EcmaScript

variable {α β : Type}

/-- Which registers of the cover grammar agree: the token that only a target could hold, and whether
what was read last can be a target. -/
structure Ties where
  cover : Prop
  targets : Prop

def Ties.full : Ties :=
  ⟨True, True⟩

/-- The registers that rules look at besides the lookahead. -/
structure Alike (k : Ties) (p q : Parser) : Prop where
  context : p.context = q.context
  settings : p.settings = q.settings
  strict : q.isStrict = true → p.isStrict = true
  cover : k.cover → q.coverInitialized.isSome → p.coverInitialized.isSome
  targets : k.targets → p.assignmentTarget = q.assignmentTarget

/-- Nothing that has to do with tokens changes from `p` to `q`. -/
structure Parser.Still (p q : Parser) : Prop where
  source : q.source = p.source
  cursor : q.cursor = p.cursor
  start : q.start = p.start
  lookahead : q.lookahead = p.lookahead
  last : p.last.isSome → q.last.isSome
  context : p.context.isSome → q.context.isSome

def Parser.Looks (p : Parser) (lexeme : Lexeme) : Prop :=
  ∃ token, p.lookahead = some token ∧ token.lexeme = lexeme

/-- The parser has come to the end of its source. -/
def Parser.Ended (src : Source) (p : Parser) : Prop :=
  ∃ token, Coherent src p token ∧ token.lexeme = .endOfSource

section

variable {p q r : Parser} {src : Source} {token : Token}

theorem Parser.Still.refl (p : Parser) : p.Still p :=
  ⟨rfl, rfl, rfl, rfl, id, id⟩

theorem Coherent.still (coherent : Coherent src p token) (still : p.Still q) : Coherent src q token := by
  obtain ⟨mark, last⟩ := coherent.last
  obtain ⟨c, context⟩ := coherent.context
  refine coherent.congr still.source still.start ?_ still.cursor still.lookahead ?_
  · exact Option.isSome_iff_exists.mp (still.last (by rw [last]; rfl))
  · exact Option.isSome_iff_exists.mp (still.context (by rw [context]; rfl))

theorem Parser.Ended.still (ended : p.Ended src) (still : p.Still q) : q.Ended src := by
  obtain ⟨token, coherent, isEnd⟩ := ended
  exact ⟨token, coherent.still still, isEnd⟩

end

/-! ### Lookaheads -/

/-- A semicolon is a mark of its own, whatever comes next. -/
theorem Lexer.token_of_semicolon {src : Source} {c : Cursor} (strict : Bool) (lineStart : Option Nat)
    (found : src[c.index]? = some 0x3B) : Meets (Lexer.token src strict lineStart) c (fun token d =>
      token.lexeme = .punctuator .semicolon ∧ d = { c with index := c.index + 1 }) noFault := by
  obtain ⟨ch, rest, ahead⟩ := Source.exists_ahead (Array.getElem?_eq_some_iff.mp found).1
  obtain rfl : ch = 0x3B := Option.some.inj ((Source.getElem?_head ahead).symm.trans found)
  refine Scan.atEnd_ahead ahead (Scan.current_ahead ahead ?_)
  rw [if_neg (by decide), if_pos (by decide)]
  refine .get_bind (.into ?_)
  refine Scan.current_ahead ahead (.get_bind ?_)
  simp only [Source.slice_ahead, ahead, List.take_succ_cons]
  exact ⟨rfl, rfl⟩

namespace Window

/-- The lookahead `t` on the left is a token of the program or the semicolon behind it, and `u` is
its copy on the right. -/
structure Facing (w : Window) (seen : Prop) (p q : Parser) (t u : Token) : Prop where
  left : Coherent w.left p t
  source : q.source = some w.right
  lookahead : q.lookahead = some u
  start_eq : q.start.map (·.index) = some u.start
  aligned : w.Aligned p.cursor q.cursor
  lexeme : t.lexeme.Tightens u.lexeme
  raw : t.raw = u.raw
  behind : w.leftBase ≤ t.start
  start : t.start + w.rightBase = u.start + w.leftBase
  stop : t.stop + w.rightBase = u.stop + w.leftBase
  notEnd : t.lexeme ≠ .endOfSource
  within : w.Within t.lexeme t.stop
  semicolon : w.left[t.start]? = some 0x3B → t.lexeme = .punctuator .semicolon
  lineBreak : seen → p.cursor.lineBreak = q.cursor.lineBreak

namespace Facing

variable {w : Window} {seen seen' : Prop} {p q p' q' : Parser} {t u : Token}

theorem still (facing : w.Facing seen p q t u) (still : p.Still p') (still' : q.Still q')
    (looser : seen' → seen) : w.Facing seen' p' q' t u :=
  { facing with
    left := facing.left.still still
    source := still'.source.trans facing.source
    lookahead := still'.lookahead.trans facing.lookahead
    start_eq := still'.start ▸ facing.start_eq
    aligned := still.cursor ▸ still'.cursor ▸ facing.aligned
    lineBreak := fun holds => still.cursor ▸ still'.cursor ▸ facing.lineBreak (looser holds) }

/-- A copy that was read where the layout ends on both sides. -/
theorem of_read {strict strict' : Bool} {last last' : Mark} {between between' after after' : Cursor}
    (left : Coherent w.left (p.fetched last between after t) t) (source : q.source = some w.right)
    (abreast : w.Abreast seen between between') (read : w.Read strict strict' t after u after')
    (tightens : t.lexeme.Tightens u.lexeme)
    (marked : w.left[between.index]? = some 0x3B → t.lexeme = .punctuator .semicolon)
    (tracks : after.lineBreak = between.lineBreak) (tracks' : after'.lineBreak = between'.lineBreak) :
    w.Facing seen (p.fetched last between after t) (q.fetched last' between' after' u) t u := by
  have start : between.index = t.start := Option.some.inj left.start_eq
  have start' : between'.index = u.start := by
    have index := abreast.index
    have starts := read.start
    omega
  exact
    { left
      source
      lookahead := rfl
      start_eq := congrArg some start'
      aligned := read.toAligned
      lexeme := tightens
      raw := read.raw
      behind := start ▸ abreast.behind
      start := read.start
      stop := read.stop
      notEnd := read.notEnd
      within := left.stop_eq ▸ read.within
      semicolon := start ▸ marked
      lineBreak := fun holds => by
        show after.lineBreak = after'.lineBreak
        rw [tracks, tracks', abreast.lineBreak holds] }

theorem test_eq (facing : w.Facing seen p q t u) (test : Lexeme → α)
    (agree : ∀ word ∈ Keyword.onlyStrict, test (.keyword word) = test (.identifier word.text)) :
    test t.lexeme = test u.lexeme := by
  rcases facing.lexeme with same | ⟨word, member, isWord, isName⟩
  · rw [same]
  · -- A word of strict code faces the name of the same spelling.
    rw [isWord, isName]
    exact agree word member

theorem start_lt (facing : w.Facing seen p q t u) : t.start < w.left.size :=
  facing.left.place_eq ▸ facing.left.place_lt_size_iff.mpr facing.notEnd

theorem char (facing : w.Facing seen p q t u) :
    ∃ ch, w.left[t.start]? = some ch ∧ w.right[u.start]? = some ch :=
  ⟨_, Array.getElem?_eq_getElem facing.start_lt, w.chars facing.behind facing.start
    (Array.getElem?_eq_getElem facing.start_lt)⟩

end Facing

end Window

/-! ### Pairings -/

/-- A window with what is known of the right side where the left one ends. A token can be read there,
it does not go on with a statement of the program, and whatever is known of it stays so as long as no
token is taken and the code does not become less strict. -/
structure Pairing extends Window where
  beyond : Parser → Prop
  stays : ∀ {q q' : Parser}, beyond q → q.Still q' → (q'.isStrict = false → q.isStrict = false) →
    beyond q'
  onward : ∀ {q : Parser}, q.source = some right → q.cursor.index + leftBase = length + 4 + rightBase →
    (∃ braces, q.cursor.braces = some (outer ++ braces)) →
    Meets Parse.lex q (fun _ q' => beyond q') (only .exhausted)
  separate : ∀ {q : Parser}, beyond q → ∃ token, q.lookahead = some token ∧ token.lexeme ≠ .keyword .else_

namespace Pairing

/-- Both parsers stand in front of the same token. -/
structure Near (w : Pairing) (seen : Prop) (k : Ties) (p q : Parser) : Prop extends Alike k p q where
  tokens : ∃ t u, w.Facing seen p q t u

/-- The parser on the left has come to its end. -/
structure Parted (w : Pairing) (k : Ties) (p q : Parser) : Prop extends Alike k p q where
  ended : p.Ended w.left
  source : q.source = some w.right
  beyond : w.beyond q

/-- What a statement may leave: where `last` holds, it may have been the last one. -/
def Reached (w : Pairing) (seen last : Prop) (k : Ties) (p q : Parser) : Prop :=
  w.Near seen k p q ∨ last ∧ w.Parted k p q

/-- What is known right after a token was fetched: where the one before it ended, and that strict
code leaves no reserved name. -/
structure Fetched (w : Pairing) (p q : Parser) : Prop where
  last : ∃ mark mark', p.last = some mark ∧ q.last = some mark' ∧ w.leftBase ≤ mark.index ∧
    mark.index + w.rightBase = mark'.index + w.leftBase
  unreserved : p.isStrict = true → ∀ token name, p.lookahead = some token →
    token.lexeme = .identifier name → name.isStrictReserved = false

section

variable {w : Pairing} {seen last : Prop} {k k' : Ties} {p q p' q' : Parser} {t u : Token}

theorem Near.reached (near : w.Near seen k p q) : w.Reached seen last k p q :=
  .inl near

theorem Reached.near (reached : w.Reached seen False k p q) : w.Near seen k p q :=
  reached.resolve_right fun parted => parted.1

theorem Reached.alike (reached : w.Reached seen last k p q) : Alike k p q := by
  rcases reached with near | ⟨-, parted⟩
  · exact near.toAlike
  · exact parted.toAlike

/-- Registers change that have nothing to do with tokens. -/
theorem Near.still (near : w.Near seen k p q) (still : p.Still p') (still' : q.Still q')
    (alike : Alike k' p' q') : w.Near seen k' p' q' := by
  obtain ⟨t, u, facing⟩ := near.tokens
  exact { alike with tokens := ⟨t, u, facing.still still still' id⟩ }

theorem Near.loosen (near : w.Near True k p q) (cover : k'.cover → k.cover)
    (targets : k'.targets → k.targets) : w.Near seen k' p q := by
  obtain ⟨t, u, facing⟩ := near.tokens
  exact
    { near with
      cover := near.cover ∘ cover
      targets := near.targets ∘ targets
      tokens := ⟨t, u, facing.still (.refl p) (.refl q) fun _ => trivial⟩ }

theorem Reached.still (reached : w.Reached seen last k p q) (still : p.Still p') (still' : q.Still q')
    (grows : q'.isStrict = false → q.isStrict = false) (alike : Alike k' p' q') :
    w.Reached seen last k' p' q' := by
  rcases reached with near | ⟨holds, parted⟩
  · exact .inl (near.still still still' alike)
  · exact .inr ⟨holds, { alike with
      ended := parted.ended.still still
      source := still'.source.trans parted.source
      beyond := w.stays parted.beyond still' grows }⟩

theorem Reached.loosen (reached : w.Reached True last k p q) (cover : k'.cover → k.cover)
    (targets : k'.targets → k.targets) : w.Reached seen last k' p q := by
  rcases reached with near | ⟨holds, parted⟩
  · exact .inl (near.loosen cover targets)
  · exact .inr ⟨holds, { parted with
      cover := parted.cover ∘ cover
      targets := parted.targets ∘ targets }⟩

end

end Pairing

/-! ### Reading tokens -/

namespace Parse

variable {src : Source} {p q : Parser} {after : α → Parser → Prop}

/-- A scanner that only runs out of rounds lets its parser fail in no other way. -/
theorem spends {m : ScanM α} {c : Cursor} {returns : α → Cursor → Prop}
    (met : Meets m c returns (only .exhausted)) : Meets m c returns (p.faults (only .exhausted)) := by
  refine met.mono (fun _ _ returned => returned) ?_
  rintro _ cursor rfl
  rfl

theorem lex_spent {after : Option Token → Parser → Prop} (source : p.source = some src)
    (reads : Meets (Layout.skipAll src) { p.cursor with lineBreak := some false }
      (fun _ between => Meets (Lexer.token src p.isStrict (some between.lineStart)) between
        (fun token cursor => after p.lookahead (p.giving.fetched p.cursor.toMark between cursor token))
        (only .exhausted)) (only .exhausted)) : Meets lex p after (only .exhausted) := by
  exact (lex_iff source).mpr (spends (reads.imp fun _ _ reads => spends reads))

theorem peek_spent {after : Unit → Parser → Prop} (source : p.source = some src)
    (reads : Meets (Layout.skipAll src) { p.cursor with lineBreak := some false }
      (fun _ between => Meets (Lexer.token src p.isStrict (some between.lineStart)) between
        (fun token cursor => after () (p.fetched between.toMark between cursor token))
        (only .exhausted)) (only .exhausted)) : Meets peek p after (only .exhausted) := by
  exact (peek_iff source).mpr (spends (reads.imp fun _ _ reads => spends reads))

end Parse

namespace Pairing

open Parse

variable {w : Pairing} {seen : Prop} {k : Ties} {p q : Parser} {t u : Token}

/-- The state behind a token that was given away. -/
structure Advanced (w : Pairing) (k : Ties) (t : Token) (p q : Parser) : Prop where
  reached : w.Reached True True k p q
  near : t.lexeme ≠ .punctuator .semicolon → w.Near True k p q
  fetched : t.lexeme ≠ .punctuator .semicolon → w.Fetched p q

/-- What is read on the right, together with `t` on the left: a copy of it, which faces it unless it is
a name on the left only. -/
def Copies (w : Window) (seen : Prop) (strict : Bool) (t : Token) (p : Parser) (after : Cursor)
    (q : Parser) (between' : Cursor) : Prop :=
  Meets (Lexer.token w.right q.isStrict (some between'.lineStart)) between' (fun u after' =>
    w.Read strict q.isStrict t after u after' ∧ (t.lexeme.Tightens u.lexeme → ∀ last',
      w.Facing seen p (q.fetched last' between' after' u) t u)) (only .exhausted)

section

variable {w : Window} {seen : Prop} {strict : Bool} {last : Mark} {lineStart : Option Nat}
variable {between after : Cursor}

/-- Layout that starts abreast ends in front of the same token. -/
theorem pieces_copy {c d : Cursor} {rounds rounds' : Nat} {fresh : Bool}
    (coherent : Coherent w.left (p.fetched last between after t) t)
    (layout : iterate .exhausted (Layout.piece w.left) rounds fresh c = .ok () between)
    (reads : Lexer.token w.left strict lineStart between = .ok t after)
    (abreast : w.Abreast seen c d) (early : c.index ≤ w.length + 3) (source : q.source = some w.right) :
    Meets (iterate .exhausted (Layout.piece w.right) rounds' fresh) d
      (fun _ => Copies w seen strict t (p.fetched last between after t) after q) (only .exhausted) := by
  refine (Window.pieces_follow rounds rounds' fresh abreast early () between layout).imp ?_
  rintro _ between' ⟨abreast, early⟩
  -- The layout has ended at the same place on both sides, and there the scanners go together.
  have scans := Window.token_follows strict q.isStrict lineStart (some between'.lineStart)
    abreast.toAligned early t after reads
  refine (scans.and_returns (Lexer.token_tracked _ _)).imp fun u after' met => ?_
  obtain ⟨read, tracked⟩ := met
  have tracks := (Lexer.token_tracked _ _).of_ok reads
  have marked (isSemicolon : w.left[between.index]? = some 0x3B) : t.lexeme = .punctuator .semicolon := by
    have met := (Lexer.token_of_semicolon strict lineStart isSemicolon).of_ok reads
    exact met.1
  refine ⟨read, fun tightens last' => ?_⟩
  exact .of_read coherent source abreast read tightens marked tracks.lineBreak tracked.lineBreak

theorem layout_copies (coherent : Coherent w.left (p.fetched last between after t) t)
    (layout : Layout.skipAll w.left { p.cursor with lineBreak := some false } = .ok () between)
    (reads : Lexer.token w.left strict lineStart between = .ok t after)
    (source : q.source = some w.right) (aligned : w.Aligned p.cursor q.cursor)
    (early : p.cursor.index ≤ w.length) (begun : p.cursor.index = 0 ↔ q.cursor.index = 0) :
    Meets (Layout.skipAll w.right) { q.cursor with lineBreak := some false }
      (fun _ => Copies w True strict t (p.fetched last between after t) after q)
      (only .exhausted) := by
  refine .modify_bind (.get_bind ?_)
  have abreast : w.Abreast True { p.cursor with lineBreak := some false }
      { q.cursor with lineBreak := some false } :=
    ⟨⟨aligned.behind, aligned.index, aligned.braces⟩, fun _ => rfl⟩
  have follows : Meets (iterate .exhausted (Layout.piece w.right) (w.right.size + 1)
      (decide (p.cursor.index = 0))) _ _ _ :=
    pieces_copy coherent layout reads abreast (Nat.le_add_right_of_le early) source
  -- Only the very start of a source counts as fresh, and both sides are there or neither is.
  simp only [begun] at follows
  exact follows

end

theorem lex_aligned (alike : Alike k p q) (poised : Poised w.left p) (source : q.source = some w.right)
    (aligned : w.Aligned p.cursor q.cursor) (early : p.cursor.index ≤ w.length)
    (begun : p.cursor.index = 0 ↔ q.cursor.index = 0) :
    Mirrors .exhausted lex lex p q fun given p' given' q' => given = p.lookahead ∧
      given' = q.lookahead ∧ w.Near True k p' q' ∧ w.Fetched p' q' := by
  intro given p' run
  obtain ⟨⟨token, coherent⟩, -, -, -, -⟩ := ((lex_meets poised).of_ok run).2.1
  obtain ⟨between, cursor, t, layout, reads, rfl, rfl⟩ := (lex_ok_iff poised.source).mp run
  obtain rfl : t = token := Option.some.inj coherent.lookahead
  have copies := layout_copies (p := p.giving) (q := q.giving) coherent layout reads source aligned
    early begun
  refine lex_spent source (copies.imp fun _ between' copy => copy.imp fun u cursor' met => ?_)
  obtain ⟨read, facing⟩ := met
  refine ⟨rfl, rfl, ?_, ?_⟩
  · exact ⟨⟨alike.context, alike.settings, alike.strict, alike.cover, alike.targets⟩, t, u,
      facing (read.tighter alike.strict) _⟩
  · refine ⟨⟨_, _, rfl, rfl, aligned.behind, aligned.index⟩, ?_⟩
    intro strict token name looked isName
    obtain rfl : t = token := Option.some.inj looked
    exact read.unreserved strict name isName

theorem peek_aligned (alike : Alike k p q) (poised : Poised w.left p)
    (source : q.source = some w.right) (aligned : w.Aligned p.cursor q.cursor)
    (early : p.cursor.index ≤ w.length) (begun : p.cursor.index = 0 ↔ q.cursor.index = 0) :
    Mirrors .exhausted peek peek p q fun _ p' _ q' => w.Near True k p' q' := by
  intro _ p' run
  obtain ⟨⟨token, coherent⟩, -, -, -, -⟩ := (peek_meets poised).of_ok run
  obtain ⟨between, cursor, t, layout, reads, rfl⟩ := (peek_ok_iff poised.source).mp run
  obtain rfl : t = token := Option.some.inj coherent.lookahead
  have copies := layout_copies coherent layout reads source aligned early begun
  refine peek_spent source (copies.imp fun _ between' copy => copy.imp fun u cursor' met => ?_)
  exact ⟨⟨alike.context, alike.settings, alike.strict, alike.cover, alike.targets⟩, t, u,
    met.2 (met.1.tighter alike.strict) _⟩

theorem ahead_of_sealed {src : Source} {length : Nat} (ends : Sealed src length) :
    src.ahead (length + 4) = 0x20 :: 0x2F :: 0x2F :: [0x45, 0x4E, 0x44] := by
  apply List.ext_getElem?
  intro i
  rw [← Source.getElem?_ahead, Nat.add_assoc]
  by_cases inside : 4 + i < 10
  · rw [ends.tail (4 + i) inside]
    have whole : Parser.sentinel = [0x20, 0x0A, 0x20, 0x3B, 0x20, 0x2F, 0x2F, 0x45, 0x4E, 0x44] := rfl
    rw [whole, Nat.add_comm]
    rfl
  · rw [Array.getElem?_eq_none (by have := ends.size_eq; omega), List.getElem?_eq_none]
    simp only [List.length_cons, List.length_nil]
    omega

theorem lex_sentinel {src : Source} {length : Nat} (ends : Sealed src length) (poised : Poised src p)
    (here : p.cursor.index = length + 4) : Meets lex p (fun _ p' => p'.Ended src) anyFault := by
  refine .of_returns fun given p' run => ?_
  obtain ⟨⟨token, coherent⟩, -, -, -, -⟩ := ((lex_meets poised).of_ok run).2.1
  obtain ⟨between, cursor, t, layout, -, -, rfl⟩ := (lex_ok_iff poised.source).mp run
  have skips : Meets (Layout.skipAll src) { p.cursor with lineBreak := some false }
      (fun _ d => d.index = src.size) anyFault :=
    Layout.skipAll_last (here ▸ ahead_of_sealed ends) (by decide) rfl
  have atEnd : between.index = src.size := by
    have met := skips.of_ok layout
    exact met
  -- A token other than the end would start inside of the source.
  refine ⟨token, coherent, Classical.byContradiction fun notEnd => ?_⟩
  have inside := coherent.place_lt_size_iff.mpr notEnd
  exact absurd (show between.index < src.size from inside) (by omega)

theorem lex_mirrors (near : w.Near seen k p q) (facing : w.Facing seen p q t u) :
    Mirrors .exhausted lex lex p q fun given p' given' q' =>
      given = some t ∧ given' = some u ∧ w.Advanced k t p' q' := by
  have stop := facing.left.stop_eq
  -- The token belongs to the program, or it is the semicolon of the sentinel on the left. In the second
  -- case nothing ties the two sides from here on, and the right one is left to what the pairing knows.
  rcases facing.within with early | ⟨isSemicolon, behind⟩
  · have moved := facing.left.moved facing.notEnd
    have begun : p.cursor.index = 0 ↔ q.cursor.index = 0 := by
      have index := facing.aligned.index
      have start := facing.start
      omega
    refine (lex_aligned near.toAlike facing.left.toPoised facing.source facing.aligned
      (stop ▸ early) begun).imp ?_
    rintro _ p' _ q' ⟨rfl, rfl, near', fetched⟩
    exact ⟨facing.left.lookahead, facing.lookahead, near'.reached, fun _ => near', fun _ => fetched⟩
  · intro given p' run
    have ended := lex_sentinel w.ends facing.left.toPoised (stop ▸ behind)
    have ended : p'.Ended w.left := by
      have met := ended.of_ok run
      exact met
    obtain ⟨between, cursor, t', -, -, rfl, rfl⟩ := (lex_ok_iff facing.left.source).mp run
    have place : q.cursor.index + w.leftBase = w.length + 4 + w.rightBase := by
      have index := facing.aligned.index
      omega
    obtain ⟨inner, -, opened⟩ := facing.aligned.braces
    refine ((w.onward facing.source place ⟨inner, opened⟩).and_returns (lex_fetches q)).imp ?_
    rintro _ _ ⟨beyond, rfl, _, between', cursor', u', -, rfl⟩
    refine ⟨facing.left.lookahead, facing.lookahead, .inr ⟨trivial, ?_⟩, ?_, ?_⟩
    · exact ⟨⟨near.context, near.settings, near.strict, near.cover, near.targets⟩, ended,
        facing.source, beyond⟩
    · exact fun other => absurd isSemicolon other
    · exact fun other => absurd isSemicolon other

/-! ### Agreement -/

/-- Both sides answer alike, and stand in front of the same token then. Where `last` holds, what was
read may have been the last of the program. -/
abbrev Reaches (w : Pairing) (last : Prop) (k : Ties) (alike : α → β → Prop) (m : ParseM α)
    (n : ParseM β) (p q : Parser) : Prop :=
  Mirrors .exhausted m n p q fun a p' b q' => alike a b ∧ w.Reached True last k p' q'

/-- The same, from wherever both sides stand in front of the same token. -/
def Relates (w : Pairing) (seen last : Prop) (k : Ties) (alike : α → β → Prop) (m : ParseM α)
    (n : ParseM β) : Prop :=
  ∀ ⦃p q : Parser⦄, w.Near seen k p q → w.Reaches last k alike m n p q

/-- The same, from wherever the token on the left is a given one. -/
def Upon (w : Pairing) (lexeme : Lexeme) (seen last : Prop) (k : Ties) (alike : α → β → Prop)
    (m : ParseM α) (n : ParseM β) : Prop :=
  ∀ ⦃p q : Parser⦄, w.Near seen k p q → p.Looks lexeme → w.Reaches last k alike m n p q

abbrev Agrees (w : Pairing) (seen : Prop) (k : Ties) (m n : ParseM α) : Prop :=
  w.Relates seen False k Eq m n

abbrev Concludes (w : Pairing) (seen : Prop) (k : Ties) (m n : ParseM α) : Prop :=
  w.Relates seen True k Eq m n

/-- A check of the registers that the right side passes where the left one does. -/
def Checks (k : Ties) (m n : ParseM Unit) : Prop :=
  ∀ ⦃p q : Parser⦄, Alike k p q → Mirrors .exhausted m n p q fun _ p' _ q' => p' = p ∧ q' = q

section

variable {γ δ : Type} {last : Prop} {alike wider : α → β → Prop} {later : γ → δ → Prop}
variable {m m' : ParseM α} {n n' : ParseM β} {f : α → ParseM γ} {g : β → ParseM δ} {lexeme : Lexeme}

theorem Near.relate (near : w.Near seen k p q) (relates : w.Relates seen last k alike m n) :
    w.Reaches last k alike m n p q :=
  relates near

theorem Near.upon (near : w.Near seen k p q) (looks : p.Looks lexeme)
    (upon : w.Upon lexeme seen last k alike m n) : w.Reaches last k alike m n p q :=
  upon near looks

namespace Relates

theorem pure {a : α} {b : β} (holds : alike a b) : w.Relates True last k alike (pure a) (pure b) :=
  fun _ _ near => .pure ⟨holds, near.reached⟩

theorem of_never (never : ∀ p, Meets m p (fun _ _ => False) anyFault) :
    w.Relates seen last k alike m n :=
  fun _ _ _ => .of_never (never _)

theorem throw {fault : Fault} : w.Relates seen last k alike (throw fault) n :=
  .of_never fun _ => trivial

theorem imp (relates : w.Relates seen last k alike m n) (weaker : ∀ a b, alike a b → wider a b) :
    w.Relates seen last k wider m n :=
  fun _ _ near => (relates near).imp fun a _ b _ met => ⟨weaker a b met.1, met.2⟩

theorem concludes {n : ParseM α} (agrees : w.Agrees seen k m n) : w.Concludes seen k m n :=
  fun _ _ near => (agrees near).imp fun _ _ _ _ met => ⟨met.1, met.2.near.reached⟩

theorem bind (first : w.Relates seen False k alike m n)
    (next : ∀ a b, alike a b → w.Relates True last k later (f a) (g b)) :
    w.Relates seen last k later (m >>= f) (n >>= g) :=
  fun _ _ near => (first near).bind fun a _ b _ met => next a b met.1 met.2.near

theorem next {n : ParseM α} {g : α → ParseM δ} (first : w.Agrees seen k m n)
    (rest : ∀ a, w.Relates True last k later (f a) (g a)) :
    w.Relates seen last k later (m >>= f) (n >>= g) :=
  first.bind fun a _ same => same ▸ rest a

/-- The answer goes into what is returned. -/
theorem returns {n : ParseM α} {result : α → γ} (first : w.Relates seen last k Eq m n) :
    w.Relates seen last k Eq (do let a ← m; Pure.pure (result a)) (do let a ← n; Pure.pure (result a)) :=
  fun _ _ near => (first near).bind fun _ _ _ _ met => .pure ⟨congrArg result met.1, met.2⟩

theorem map {n : ParseM α} (first : w.Relates seen last k Eq m n) (result : α → γ) :
    w.Relates seen last k Eq (result <$> m) (result <$> n) := by
  rw [← bind_pure_comp, ← bind_pure_comp]
  exact first.returns

theorem ite_iff {c d : Prop} [Decidable c] [Decidable d] (same : c ↔ d)
    (yes : w.Relates seen last k alike m n) (no : w.Relates seen last k alike m' n') :
    w.Relates seen last k alike (if c then m else m') (if d then n else n') :=
  fun _ _ near => .ite_iff same (fun _ => yes near) fun _ => no near

theorem ite {c : Prop} [Decidable c] (yes : w.Relates seen last k alike m n)
    (no : w.Relates seen last k alike m' n') :
    w.Relates seen last k alike (if c then m else m') (if c then n else n') :=
  .ite_iff Iff.rfl yes no

/-- Nothing is lost where the right side refuses less. -/
theorem refuse {c c' : Prop} [Decidable c] [Decidable c'] (harder : c' → c)
    (refused : ∀ p, Meets m p (fun _ _ => False) anyFault) (goes : w.Relates seen last k alike m' n') :
    w.Relates seen last k alike (if c then m else m') (if c' then n else n') := by
  by_cases holds : c
  · rw [if_pos holds]
    exact .of_never refused
  · rw [if_neg holds, if_neg (mt harder holds)]
    exact goes

end Relates

theorem Upon.of (relates : w.Relates seen last k alike m n) : w.Upon lexeme seen last k alike m n :=
  fun _ _ near _ => relates near

theorem Upon.next {n : ParseM α} {g : α → ParseM δ} (first : w.Upon lexeme seen False k Eq m n)
    (rest : ∀ a, w.Relates True last k later (f a) (g a)) :
    w.Upon lexeme seen last k later (m >>= f) (n >>= g) :=
  fun _ _ near looks => (first near looks).agree fun a _ _ reached => rest a reached.near

/-! ### Checks -/

namespace Checks

variable {m n : ParseM Unit} {f : Unit → ParseM γ} {g : Unit → ParseM δ}

theorem pure : Checks k (pure ()) (pure ()) :=
  fun _ _ _ => .pure ⟨rfl, rfl⟩

theorem isStrict {f g : Bool → ParseM Unit}
    (next : ∀ strict strict', (strict' = true → strict = true) → Checks k (f strict) (g strict')) :
    Checks k (isStrict >>= f) (isStrict >>= g) := by
  intro p q alike
  unfold Parse.isStrict
  rw [bind_assoc, bind_assoc]
  exact .get_bind (next _ _ alike.strict alike)

theorem refuse {c c' : Prop} [Decidable c] [Decidable c'] {m' n' : ParseM Unit} (harder : c' → c)
    (refused : ∀ p, Meets m p (fun _ _ => False) anyFault) (goes : Checks k m' n') :
    Checks k (if c then m else m') (if c' then n else n') := by
  by_cases holds : c
  · rw [if_pos holds]
    exact fun _ _ _ => .of_never (refused _)
  · rw [if_neg holds, if_neg (mt harder holds)]
    exact goes

/-- Strict code refuses, and on the left more code is strict. -/
theorem of_strict {test : Bool} {message : Message} {values : List Text} (rest : Checks k m n) :
    Checks k (do if (← Parse.isStrict) && test then complain message values else m)
      (do if (← Parse.isStrict) && test then complain message values else n) := by
  refine .isStrict fun strict strict' stricter => .refuse ?_ complain_never rest
  simp only [Bool.and_eq_true]
  exact And.imp_left stricter

theorem next (checks : Checks k m n) (rest : w.Relates seen last k later (f ()) (g ())) :
    w.Relates seen last k later (m >>= f) (n >>= g) := by
  refine fun _ _ near => (checks near.toAlike).bind ?_
  rintro _ _ _ _ ⟨rfl, rfl⟩
  exact rest near

theorem upon (checks : Checks k m n) (rest : w.Upon lexeme seen last k later (f ()) (g ())) :
    w.Upon lexeme seen last k later (m >>= f) (n >>= g) := by
  refine fun _ _ near looks => (checks near.toAlike).bind ?_
  rintro _ _ _ _ ⟨rfl, rfl⟩
  exact rest near looks

/-- A check behind what may have been the last of the program. -/
theorem reached {a : γ} (checks : Checks k m n) (reached : w.Reached True last k p q) :
    w.Reaches last k Eq (do m; Pure.pure a) (do n; Pure.pure a) p q := by
  refine (checks reached.alike).bind ?_
  rintro _ _ _ _ ⟨rfl, rfl⟩
  exact .pure ⟨rfl, reached⟩

end Checks

/-! ### Tokens -/

section

variable {f : Token → ParseM γ} {g : Token → ParseM δ} {kept : γ → Parser → δ → Parser → Prop}

theorem facing_bind (facing : w.Facing seen p q t u) (next : Mirrors .exhausted (f t) (g u) p q kept) :
    Mirrors .exhausted (lookahead >>= f) (lookahead >>= g) p q kept := by
  intro c p' run
  obtain ⟨token, r, looked, run⟩ := bind_ok_iff.mp run
  obtain ⟨rfl, found⟩ := (lookahead_returns p).of_ok looked
  obtain rfl : t = token := Option.some.inj (facing.left.lookahead.symm.trans found)
  refine .into (.get_bind ?_)
  simp only [facing.lookahead]
  exact next c p' run

theorem lookahead_bind (near : w.Near seen k p q)
    (next : ∀ t u, w.Facing seen p q t u → Mirrors .exhausted (f t) (g u) p q kept) :
    Mirrors .exhausted (lookahead >>= f) (lookahead >>= g) p q kept := by
  obtain ⟨t, u, facing⟩ := near.tokens
  exact facing_bind facing (next t u facing)

namespace Relates

/-- The same token faces both sides, or a word that only strict code reserves faces a name. -/
theorem ahead (same : ∀ (lexeme : Lexeme) (t u : Token), t.lexeme = lexeme → u.lexeme = lexeme →
      t.raw = u.raw → w.Upon lexeme seen last k later (f t) (g u))
    (other : ∀ (t u : Token) (word : Keyword), word ∈ Keyword.onlyStrict → t.lexeme = .keyword word →
      u.lexeme = .identifier word.text → w.Relates seen last k later (f t) (g u)) :
    w.Relates seen last k later (lookahead >>= f) (lookahead >>= g) := by
  refine fun p q near => lookahead_bind near fun t u facing => ?_
  rcases facing.lexeme with equal | ⟨word, member, isWord, isName⟩
  · exact same _ t u rfl equal.symm facing.raw near ⟨t, facing.left.lookahead, rfl⟩
  · exact other t u word member isWord isName near

/-- A test of the lookahead that only strict code could decide otherwise. -/
theorem tests (test : Lexeme → α)
    (agree : ∀ word ∈ Keyword.onlyStrict, test (.keyword word) = test (.identifier word.text))
    (next : ∀ t u : Token, test t.lexeme = test u.lexeme →
      w.Upon t.lexeme seen last k later (f t) (g u)) :
    w.Relates seen last k later (lookahead >>= f) (lookahead >>= g) :=
  fun _ _ near => lookahead_bind near fun t u facing =>
    next t u (facing.test_eq test agree) near ⟨t, facing.left.lookahead, rfl⟩

variable {f : Bool → ParseM γ} {g : Bool → ParseM δ}

theorem test (test : Lexeme → Bool)
    (agree : ∀ word ∈ Keyword.onlyStrict, test (.keyword word) = test (.identifier word.text))
    (next : ∀ found, w.Relates seen last k later (f found) (g found)) :
    w.Relates seen last k later ((do return test (← lookahead).lexeme) >>= f)
      ((do return test (← lookahead).lexeme) >>= g) := by
  rw [bind_assoc, bind_assoc]
  refine .tests test agree fun t u same => .of ?_
  rw [pure_bind, pure_bind, ← same]
  exact next _

end Relates

section

variable {yes no : ParseM γ} {yes' no' : ParseM δ}

theorem looks_ite (near : w.Near seen k p q)
    (always : ∀ word ∈ Keyword.onlyStrict, lexeme ≠ .keyword word ∧ lexeme ≠ .identifier word.text)
    (found : p.Looks lexeme → Mirrors .exhausted yes yes' p q kept)
    (other : Mirrors .exhausted no no' p q kept) :
    Mirrors .exhausted (do if (← lookahead).lexeme = lexeme then yes else no)
      (do if (← lookahead).lexeme = lexeme then yes' else no') p q kept := by
  refine lookahead_bind near fun t u facing => ?_
  have same := facing.test_eq (fun found => decide (found = lexeme)) fun word member => by
    simp [Ne.symm (always word member).1, Ne.symm (always word member).2]
  exact .ite_iff (by simpa using same) (fun isSuch => found ⟨t, facing.left.lookahead, isSuch⟩)
    fun _ => other

theorem atMark_ite {mark : Punctuator} (near : w.Near seen k p q)
    (found : p.Looks (.punctuator mark) → Mirrors .exhausted yes yes' p q kept)
    (other : Mirrors .exhausted no no' p q kept) :
    Mirrors .exhausted (do if ← atMark mark then yes else no)
      (do if ← atMark mark then yes' else no') p q kept := by
  simp only [Parse.atMark, bind_assoc, pure_bind, decide_eq_true_eq]
  exact looks_ite near (fun _ _ => ⟨nofun, nofun⟩) found other

theorem Relates.atMark {mark : Punctuator} (found : w.Upon (.punctuator mark) seen last k later yes yes')
    (other : w.Relates seen last k later no no') :
    w.Relates seen last k later (do if ← atMark mark then yes else no)
      (do if ← atMark mark then yes' else no') :=
  fun _ _ near => atMark_ite near (found near) (other near)

theorem Relates.atKeyword {word : Keyword} (always : word ∉ Keyword.onlyStrict)
    (found : w.Upon (.keyword word) seen last k later yes yes')
    (other : w.Relates seen last k later no no') :
    w.Relates seen last k later (do if ← atKeyword word then yes else no)
      (do if ← atKeyword word then yes' else no') := by
  intro p q near
  simp only [Parse.atKeyword, bind_assoc, pure_bind, decide_eq_true_eq]
  refine looks_ite near (fun word' member => ⟨fun same => ?_, nofun⟩) (found near) (other near)
  cases same
  exact always member

end

end

theorem take_mirrors (near : w.Near seen k p q) : Mirrors .exhausted take take p q fun t p' u q' =>
      w.Facing seen p q t u ∧ w.Advanced k t p' q' := by
  obtain ⟨t, u, facing⟩ := near.tokens
  refine (lex_mirrors near facing).bind ?_
  rintro _ p' _ q' ⟨rfl, rfl, advanced⟩
  exact .pure ⟨facing, advanced⟩

theorem drop_mirrors (near : w.Near seen k p q) (looks : p.Looks lexeme) :
    Mirrors .exhausted drop drop p q fun _ p' _ q' => w.Reached True True k p' q' ∧
        (lexeme ≠ .punctuator .semicolon → w.Near True k p' q' ∧ w.Fetched p' q') := by
  obtain ⟨t, u, facing⟩ := near.tokens
  obtain ⟨token, looked, rfl⟩ := looks
  obtain rfl : t = token := Option.some.inj (facing.left.lookahead.symm.trans looked)
  refine (lex_mirrors near facing).bind ?_
  rintro _ p' _ q' ⟨rfl, rfl, advanced⟩
  exact .pure ⟨advanced.reached, fun other => ⟨advanced.near other, advanced.fetched other⟩⟩

theorem drop_agrees : w.Concludes seen k drop drop := by
  intro p q near
  obtain ⟨t, u, facing⟩ := near.tokens
  exact (drop_mirrors near ⟨t, facing.left.lookahead, rfl⟩).imp fun _ _ _ _ met => ⟨rfl, met.1⟩

theorem demand_mirrors (near : w.Near seen k p q) (lexeme : Lexeme)
    (always : ∀ word ∈ Keyword.onlyStrict, lexeme ≠ .keyword word) : Mirrors .exhausted
      (do let token ← take; if token.lexeme = lexeme then pure () else unexpected token)
      (do let token ← take; if token.lexeme = lexeme then pure () else unexpected token) p q
      fun _ p' _ q' => w.Reached True True k p' q' ∧
        (lexeme ≠ .punctuator .semicolon → w.Near True k p' q' ∧ w.Fetched p' q') := by
  refine (take_mirrors near).bind ?_
  rintro t p' u q' ⟨facing, advanced⟩
  by_cases found : t.lexeme = lexeme
  · have found' : u.lexeme = lexeme := by
      rcases facing.lexeme with same | ⟨word, member, isWord, -⟩
      · exact same.symm.trans found
      · exact absurd (found.symm.trans isWord) (always word member)
    rw [if_pos found, if_pos found']
    subst found
    exact .pure ⟨advanced.reached, fun other => ⟨advanced.near other, advanced.fetched other⟩⟩
  · rw [if_neg found]
    exact .of_never trivial

theorem expect_mirrors (mark : Punctuator) (near : w.Near seen k p q) (other : mark ≠ .semicolon) :
    Mirrors .exhausted (expect mark) (expect mark) p q fun _ p' _ q' =>
      w.Near True k p' q' ∧ w.Fetched p' q' :=
  (demand_mirrors near (.punctuator mark) nofun).imp fun _ _ _ _ met =>
    met.2 fun same => other (Lexeme.punctuator.inj same)

theorem expectKeyword_mirrors (word : Keyword) (near : w.Near seen k p q)
    (always : word ∉ Keyword.onlyStrict) :
    Mirrors .exhausted (expectKeyword word) (expectKeyword word) p q fun _ p' _ q' =>
      w.Near True k p' q' ∧ w.Fetched p' q' := by
  refine (demand_mirrors near (.keyword word) fun word' member same => ?_).imp fun _ _ _ _ met => met.2 nofun
  cases same
  exact always member

theorem semicolon_agrees : w.Concludes seen k (expect .semicolon) (expect .semicolon) :=
  fun _ _ near => (demand_mirrors near (.punctuator .semicolon) nofun).imp fun _ _ _ _ met => ⟨rfl, met.1⟩

section

variable {f : Unit → ParseM γ} {g : Unit → ParseM δ}

theorem Upon.pass (other : lexeme ≠ .punctuator .semicolon)
    (next : w.Relates True last k later (f ()) (g ())) :
    w.Upon lexeme seen last k later (drop >>= f) (drop >>= g) :=
  fun _ _ near looks => (drop_mirrors near looks).bind fun _ _ _ _ met => next (met.2 other).1

theorem Relates.expect {mark : Punctuator} (other : mark ≠ .semicolon)
    (next : w.Relates True last k later (f ()) (g ())) :
    w.Relates seen last k later (expect mark >>= f) (expect mark >>= g) :=
  fun _ _ near => (expect_mirrors mark near other).bind fun _ _ _ _ met => next met.1

theorem Relates.expectKeyword {word : Keyword} (always : word ∉ Keyword.onlyStrict)
    (next : w.Relates True last k later (f ()) (g ())) :
    w.Relates seen last k later (expectKeyword word >>= f) (expectKeyword word >>= g) :=
  fun _ _ near => (expectKeyword_mirrors word near always).bind fun _ _ _ _ met => next met.1

end

/-! ### Registers -/

section

variable {kept : γ → Parser → δ → Parser → Prop}

theorem source_bind {f : Source → ParseM γ} {g : Source → ParseM δ} (facing : w.Facing seen p q t u)
    (next : Mirrors .exhausted (f w.left) (g w.right) p q kept) :
    Mirrors .exhausted (source >>= f) (source >>= g) p q kept := by
  unfold Parse.source
  rw [bind_assoc, bind_assoc]
  refine .get_bind ?_
  simp only [facing.left.source, facing.source]
  exact next

theorem startMark_bind {f : Mark → ParseM γ} {g : Mark → ParseM δ} (facing : w.Facing seen p q t u)
    (next : ∀ mark mark' : Mark, mark.index = t.start → mark'.index = u.start →
      Mirrors .exhausted (f mark) (g mark') p q kept) :
    Mirrors .exhausted (startMark >>= f) (startMark >>= g) p q kept := by
  obtain ⟨mark, start, index⟩ := Option.map_eq_some_iff.mp facing.left.start_eq
  obtain ⟨mark', start', index'⟩ := Option.map_eq_some_iff.mp facing.start_eq
  unfold startMark
  rw [bind_assoc, bind_assoc]
  refine .get_bind ?_
  simp only [start, start']
  exact next mark mark' index index'

variable {f : Bool → ParseM γ} {g : Bool → ParseM δ}

theorem inside_bind (near : w.Near seen k p q) (next : Mirrors .exhausted (f true) (g true) p q kept) :
    Mirrors .exhausted (inside >>= f) (inside >>= g) p q kept := by
  obtain ⟨t, u, facing⟩ := near.tokens
  unfold inside
  simp only [bind_assoc]
  refine source_bind facing (startMark_bind facing fun mark mark' index index' => ?_)
  obtain ⟨ch, here, there⟩ := facing.char
  have within := (Array.getElem?_eq_some_iff.mp here).1
  have within' := (Array.getElem?_eq_some_iff.mp there).1
  rw [pure_bind, pure_bind, index, index', decide_eq_true within, decide_eq_true within']
  exact next

theorem isStrict_bind (near : w.Near seen k p q) (next : (q.isStrict = true → p.isStrict = true) →
      Mirrors .exhausted (f p.isStrict) (g q.isStrict) p q kept) :
    Mirrors .exhausted (isStrict >>= f) (isStrict >>= g) p q kept := by
  unfold Parse.isStrict
  rw [bind_assoc, bind_assoc]
  exact .get_bind (next near.strict)

theorem afterLineBreak_bind (near : w.Near True k p q)
    (next : ∀ found, (found = true ↔ p.cursor.lineBreak = some true) →
      Mirrors .exhausted (f found) (g found) p q kept) :
    Mirrors .exhausted (afterLineBreak >>= f) (afterLineBreak >>= g) p q kept := by
  obtain ⟨t, u, facing⟩ := near.tokens
  unfold afterLineBreak
  rw [bind_assoc, bind_assoc]
  refine .get_bind ?_
  rw [← facing.lineBreak trivial]
  exact next _ decide_eq_true_iff

theorem context_bind {f : Context → ParseM γ} {g : Context → ParseM δ} (alike : Alike k p q)
    (next : ∀ c, Mirrors .exhausted (f c) (g c) p q kept) :
    Mirrors .exhausted (context >>= f) (context >>= g) p q kept := by
  unfold Parse.context
  rw [bind_assoc, bind_assoc]
  refine .get_bind ?_
  rw [← alike.context]
  cases p.context with
  | some c => exact next c
  | none => exact .of_never trivial

end

theorem changeContext_mirrors (alike : Alike k p q) (change : Context → Context) :
    Mirrors .exhausted (changeContext change) (changeContext change) p q fun _ p' _ q' =>
      Alike k p' q' ∧ p.Still p' ∧ q.Still q' ∧ q'.isStrict = q.isStrict :=
  context_bind alike fun _ => .modify ⟨⟨rfl, alike.settings, alike.strict, alike.cover, alike.targets⟩,
    ⟨rfl, rfl, rfl, rfl, id, fun _ => rfl⟩, ⟨rfl, rfl, rfl, rfl, id, fun _ => rfl⟩, rfl⟩

/-- A change of the context behind what may have been the last of the program. -/
theorem changeContext_reached (reached : w.Reached seen last k p q) (change : Context → Context) :
    Mirrors .exhausted (changeContext change) (changeContext change) p q fun _ p' _ q' =>
      w.Reached seen last k p' q' :=
  (changeContext_mirrors reached.alike change).imp fun _ _ _ _ ⟨alike, still, still', strict⟩ =>
    reached.still still still' (strict ▸ id) alike

theorem Near.opened (near : w.Near seen k p q) : w.Near seen .full p.opened q.opened :=
  near.still ⟨rfl, rfl, rfl, rfl, id, id⟩ ⟨rfl, rfl, rfl, rfl, id, id⟩
    ⟨near.context, near.settings, near.strict, fun _ => id, fun _ => rfl⟩

namespace Relates

variable {part part' : ParseM α}

theorem inside {f : Bool → ParseM γ} {g : Bool → ParseM δ}
    (next : w.Relates seen last k later (f true) (g true)) :
    w.Relates seen last k later (inside >>= f) (inside >>= g) :=
  fun _ _ near => inside_bind near (next near)

theorem afterLineBreak {f : Bool → ParseM γ} {g : Bool → ParseM δ}
    (next : ∀ found, w.Relates True last k later (f found) (g found)) :
    w.Relates True last k later (afterLineBreak >>= f) (afterLineBreak >>= g) :=
  fun _ _ near => afterLineBreak_bind near fun found _ => next found near

theorem context {f : Context → ParseM γ} {g : Context → ParseM δ}
    (next : ∀ c, w.Relates seen last k later (f c) (g c)) :
    w.Relates seen last k later (context >>= f) (context >>= g) :=
  fun _ _ near => context_bind near.toAlike fun c => next c near

theorem changeContext {change : Context → Context} {f : Unit → ParseM γ} {g : Unit → ParseM δ}
    (next : w.Relates seen last k later (f ()) (g ())) :
    w.Relates seen last k later (changeContext change >>= f) (changeContext change >>= g) :=
  fun _ _ near => (changeContext_mirrors near.toAlike change).bind
    fun _ _ _ _ ⟨alike, still, still', _⟩ => next (near.still still still' alike)

theorem inContext {enter leave : Context → Context} (parts : w.Relates seen last k Eq part part') :
    w.Relates seen last k Eq
      (do Parse.changeContext enter; let result ← part; Parse.changeContext leave; Pure.pure result)
      (do Parse.changeContext enter; let result ← part'; Parse.changeContext leave; Pure.pure result) :=
  .changeContext fun _ _ near => (parts near).agree fun _ _ _ reached =>
    (changeContext_reached reached leave).bind fun _ _ _ _ reached => .pure ⟨rfl, reached⟩

/-! ### Cover grammar -/

theorem isolated (parts : w.Relates seen last .full Eq part part') :
    w.Relates seen last k Eq (isolated part) (isolated part') := by
  refine fun p q near => .get_bind (.modify_bind ?_)
  refine (parts near.opened).agree fun a p' q' reached => .get_bind ?_
  have alike := reached.alike
  cases covered : p'.coverInitialized with
  | some token => exact .of_never trivial
  | none =>
    have covered' : q'.coverInitialized = none := by
      refine Option.not_isSome_iff_eq_none.mp fun found => ?_
      have impossible := alike.cover trivial found
      rw [covered] at impossible
      cases impossible
    simp only [covered']
    refine .modify_bind (.pure ⟨rfl, ?_⟩)
    exact reached.still ⟨rfl, rfl, rfl, rfl, id, id⟩ ⟨rfl, rfl, rfl, rfl, id, id⟩ id
      ⟨alike.context, alike.settings, alike.strict, near.cover, near.targets⟩

theorem inherited (parts : w.Relates seen last .full Eq part part') :
    w.Relates seen last k Eq (inherited part) (inherited part') := by
  refine fun p q near => .get_bind (.modify_bind ?_)
  refine (parts near.opened).agree fun a p' q' reached => .modify_bind (.pure ⟨rfl, ?_⟩)
  have alike := reached.alike
  refine reached.still ⟨rfl, rfl, rfl, rfl, id, id⟩ ⟨rfl, rfl, rfl, rfl, id, id⟩ id
    ⟨alike.context, alike.settings, alike.strict, fun holds joined => ?_, fun holds => ?_⟩
  · rw [Option.isSome_or, Bool.or_eq_true] at joined ⊢
    exact joined.imp (near.cover holds) (alike.cover trivial)
  · dsimp only
    rw [alike.targets trivial, near.targets holds]

end Relates

theorem Near.rebound (near : w.Near seen k p q) (binding : Option Bool) :
    w.Near seen k { p with bindingElement := binding } { q with bindingElement := binding } :=
  near.still ⟨rfl, rfl, rfl, rfl, id, id⟩ ⟨rfl, rfl, rfl, rfl, id, id⟩
    ⟨near.context, near.settings, near.strict, near.cover, near.targets⟩

theorem Near.retargeted (near : w.Near seen k p q) (target : Option Bool) :
    w.Near seen { k with targets := True } { p with assignmentTarget := target }
      { q with assignmentTarget := target } :=
  near.still ⟨rfl, rfl, rfl, rfl, id, id⟩ ⟨rfl, rfl, rfl, rfl, id, id⟩
    ⟨near.context, near.settings, near.strict, near.cover, fun _ => rfl⟩

section

variable {f : Unit → ParseM γ} {g : Unit → ParseM δ}

theorem Relates.rebind {binding : Option Bool} (next : w.Relates seen last k later (f ()) (g ())) :
    w.Relates seen last k later (modify (fun p => { p with bindingElement := binding }) >>= f)
      (modify (fun p => { p with bindingElement := binding }) >>= g) :=
  fun _ _ near => .modify_bind (next (near.rebound binding))

theorem Upon.rebind {binding : Option Bool} (next : w.Upon lexeme seen last k later (f ()) (g ())) :
    w.Upon lexeme seen last k later (modify (fun p => { p with bindingElement := binding }) >>= f)
      (modify (fun p => { p with bindingElement := binding }) >>= g) :=
  fun _ _ near looks => .modify_bind (next (near.rebound binding) looks)

theorem Upon.expressionOnly {cover : Prop}
    (next : w.Upon lexeme seen last ⟨cover, True⟩ later (f ()) (g ())) :
    w.Upon lexeme seen last ⟨cover, True⟩ later (expressionOnly >>= f) (expressionOnly >>= g) :=
  fun _ _ near looks => .modify_bind (next ((near.retargeted (some false)).rebound (some false)) looks)

theorem Relates.expressionOnly {cover : Prop}
    (next : w.Relates seen last ⟨cover, True⟩ later (f ()) (g ())) :
    w.Relates seen last ⟨cover, True⟩ later (expressionOnly >>= f) (expressionOnly >>= g) :=
  fun _ _ near => .modify_bind (next ((near.retargeted (some false)).rebound (some false)))

end

/-! ### Loops and semicolons -/

section

variable {body : α → ParseM (α ⊕ γ)} {body' : β → ParseM (β ⊕ δ)}
variable {kept : γ → Parser → δ → Parser → Prop} {a : α} {b : β}

theorem repeated_mirrors (holds : α → Parser → β → Parser → Prop) (round : ∀ a p b q, holds a p b q →
      Mirrors .exhausted (body a) (body' b) p q (Mirrors.Onward holds kept)) (begun : holds a p b q) :
    Mirrors .exhausted (repeated body a) (repeated body' b) p q kept :=
  .get_bind (Mirrors.iterate holds round _ _ a p b q begun)

theorem repeated_unless {stop : Parser → Prop} (holds : α → Parser → β → Parser → Prop)
    (stuck : ∀ a p, stop p → Meets (body a) p (fun _ p' => stop p') anyFault)
    (round : ∀ a p b q, holds a p b q →
      MirrorsUnless stop .exhausted (body a) (body' b) p q (Mirrors.Onward holds kept))
    (begun : holds a p b q) :
    MirrorsUnless stop .exhausted (repeated body a) (repeated body' b) p q kept := by
  intro c p' run
  have loop := MirrorsUnless.iterate holds stuck round _ ((q.source.map Array.size).getD 0 + 8) a p b
    q begun c p' run
  exact loop.imp id fun met => .get_bind met

theorem Relates.repeated (round : ∀ a b, alike a b →
      w.Relates True False k (Sum.LiftRel alike later) (body a) (body' b)) (begun : alike a b) :
    w.Relates True last k later (repeated body a) (repeated body' b) := by
  intro p q near
  refine repeated_mirrors (fun a p b q => alike a b ∧ w.Near True k p q) ?_ ⟨begun, near⟩
  rintro a p b q ⟨met, near⟩
  refine (round a b met near).imp ?_
  rintro _ _ _ _ ⟨met | met, reached⟩
  · exact ⟨met, reached.near⟩
  · exact ⟨met, reached.near.reached⟩

end

theorem Relates.loop {body body' : α → ParseM (α ⊕ γ)} {a : α}
    (round : ∀ a, w.Agrees True k (body a) (body' a)) :
    w.Relates True last k Eq (Parse.repeated body a) (Parse.repeated body' a) := by
  refine .repeated (fun a b (same : a = b) => ?_) rfl
  subst same
  refine (round a).imp ?_
  rintro (a | c) _ rfl
  · exact .inl rfl
  · exact .inr rfl

theorem consumeSemicolon_agrees : w.Concludes True k consumeSemicolon consumeSemicolon := by
  intro p q near
  obtain ⟨t, u, facing⟩ := near.tokens
  refine source_bind facing (startMark_bind facing fun mark mark' index index' => ?_)
  obtain ⟨ch, here, there⟩ := facing.char
  rw [index, index', here, there]
  refine .ite (fun _ => drop_agrees near) fun _ => ?_
  refine Relates.atMark (.of drop_agrees) (.afterLineBreak fun found => .ite (.pure rfl) ?_) near
  refine fun p q near => .modify_bind ?_
  have near : w.Near True k { p with last := p.start } { q with last := q.start } := by
    obtain ⟨t, u, facing⟩ := near.tokens
    obtain ⟨_, start⟩ := facing.left.start
    obtain ⟨_, start', -⟩ := Option.map_eq_some_iff.mp facing.start_eq
    exact near.still ⟨rfl, rfl, rfl, rfl, fun _ => start ▸ rfl, id⟩
      ⟨rfl, rfl, rfl, rfl, fun _ => start' ▸ rfl, id⟩
      ⟨near.context, near.settings, near.strict, near.cover, near.targets⟩
  refine Relates.tests (fun lexeme => decide (lexeme = .endOfSource) ||
    decide (lexeme = .punctuator .closeBrace)) (fun _ _ => rfl) (fun t u same => .of ?_) near
  rw [← same]
  exact .ite (.pure rfl) (.of_never fun _ => trivial)

end

end Pairing

end EcmaScript
