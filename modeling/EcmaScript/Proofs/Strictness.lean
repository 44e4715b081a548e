import EcmaScript.Proofs.Prologue

/-!
Strict code is code. A program behind the directive of strict code is read alone as well, and as the
same statements. The directive is followed to its semicolon, where the token behind it is the first one
of the program; from there on both are read side by side, the left one strict.
-/

namespace EcmaScript

open Parse Grammar Source

/-- The directive of strict code as a program starts with it, on a line of its own. -/
abbrev strictly : Text :=
  Text.ofString "\"use strict\";\n"

def useStrict : Quoted :=
  ⟨Text.ofString "use strict", by decide⟩

def strictDirective : Node :=
  .expressionStatement (.literal (.string useStrict.text) useStrict.written)

/-- The directive stands at the index, and its semicolon right behind it. -/
structure Source.Directed (src : Source) (start : Nat) (rest : Text) : Prop where
  ahead : src.ahead start = useStrict.written ++ 0x3B :: rest
  delimited : (Piece.mark .semicolon).Delimited rest

namespace Source.Directed

variable {src : Source} {start : Nat} {rest : Text}

theorem semicolon (directed : src.Directed start rest) : src.ahead (start + 12) = 0x3B :: rest :=
  ahead_append directed.ahead

theorem behind (directed : src.Directed start rest) : src.ahead (start + 13) = rest :=
  ahead_cons directed.semicolon

theorem slice (directed : src.Directed start rest) :
    src.slice (start + 1) (start + 11) = Text.ofString "use strict" := by
  have length : useStrict.text.length = 10 := by decide
  have opens : src.ahead start = 0x22 :: (useStrict.text ++ 0x22 :: 0x3B :: rest) := by
    simp [directed.ahead, Quoted.written]
  have sliced := slice_append (ahead_cons opens)
  rw [length] at sliced
  exact sliced

end Source.Directed

theorem strictly_directed (code : Text) :
    (Parser.sourceOf (strictly ++ code)).Directed 0 (0x0A :: (code ++ Parser.sentinel)) := by
  have split : strictly = useStrict.written ++ [0x3B, 0x0A] := by decide
  exact ⟨by simp [Source.ahead, Source.ofText, split], .inr ⟨_, _, rfl, by decide⟩⟩

/-! ### Pieces in the first line -/

/-- A cursor in the first line, inside of so many blocks. -/
def firstLine (index depth : Nat) : Cursor :=
  { index
    lineNumber := 1
    lineStart := 0
    lineBreak := some false
    braces := some (List.replicate depth .block) }

/-- A piece of the first line, with the number of blocks that are open behind it. -/
structure Placed where
  piece : Piece
  start : Nat
  depth : Nat

def Placed.stop (placed : Placed) : Nat :=
  placed.start + placed.piece.text.length

/-- One piece follows another, behind one blank at most. -/
structure Placed.Precedes (src : Source) (here next : Placed) (gap rest : Text) : Prop where
  small : gap = [] ∨ gap = [0x20]
  ahead : src.ahead here.stop = gap ++ (next.piece.text ++ rest)
  start : next.start = here.stop + gap.length
  delimited : next.piece.Delimited rest
  legible : next.piece.depthAfter? here.depth = some next.depth
  late : next.piece.text.head? ≠ some 0x2D

structure AtPiece (src : Source) (placed : Placed) (p : Parser) : Prop where
  token : ∃ token, Coherent src p token ∧ token.Matches [placed.piece] ∧ token.start = placed.start
  cursor : p.cursor = firstLine placed.stop placed.depth

section

variable {reader : Reader} {src : Source} {p q : Parser} {rest : Text} {here next : Placed}
variable {fails : Fault → Parser → Prop}

theorem Placed.token_next {strict : Bool} (found : src.ahead next.start = next.piece.text ++ rest)
    (delimited : next.piece.Delimited rest)
    (legible : next.piece.depthAfter? here.depth = some next.depth)
    (loose : strict = true → ¬ IsSpelledOut next.piece.text) :
    Meets (Lexer.token src strict (some 0)) (firstLine next.start here.depth) (fun token d =>
      token.Matches [next.piece] ∧ token.start = next.start ∧ d = firstLine next.stop next.depth)
      noFault := by
  refine (Lexer.token_piece strict (some 0) found delimited rfl legible loose).imp ?_
  rintro token d ⟨lexeme, raw, start, rfl⟩
  exact ⟨⟨lexeme, raw⟩, start, rfl⟩

namespace AtPiece

/-- What a string in the lookahead looks like. -/
theorem string {string : Quoted} {start depth : Nat}
    (at_piece : AtPiece src ⟨.quoted string, start, depth⟩ p) :
    ∃ token, Coherent src p token ∧ token.lexeme = .string string.text false ∧
      token.raw = some string.written ∧ token.start = start ∧
        token.stop = start + string.written.length := by
  obtain ⟨token, coherent, ⟨isString, raw⟩, start⟩ := at_piece.token
  refine ⟨token, coherent, isString, raw, start, ?_⟩
  rw [coherent.stop_eq, at_piece.cursor]
  rfl

section

variable (at_piece : AtPiece src here p)
include at_piece

theorem still (still : p.Still q) : AtPiece src here q where
  token := by
    obtain ⟨token, coherent, found⟩ := at_piece.token
    exact ⟨token, coherent.still still, found⟩
  cursor := still.cursor.trans at_piece.cursor

theorem source : p.source = some src := by
  obtain ⟨token, coherent, -⟩ := at_piece.token
  exact coherent.source

theorem present : p.context.isSome := by
  obtain ⟨token, coherent, -⟩ := at_piece.token
  exact Option.isSome_iff_exists.mpr coherent.context

theorem looks : p.Looks here.piece.lexeme := by
  obtain ⟨token, coherent, isPiece, -⟩ := at_piece.token
  exact ⟨token, coherent.lookahead, isPiece.1⟩

theorem lex {gap : Text} (precedes : here.Precedes src next gap rest)
    (loose : p.isStrict = true → ¬ IsSpelledOut next.piece.text) :
    Meets lex p (fun given q => given = p.lookahead ∧ AtPiece src next q) fails := by
  obtain ⟨token, coherent, -⟩ := at_piece.token
  have behind : src.ahead next.start = next.piece.text ++ rest := by
    rw [precedes.start]
    exact ahead_append precedes.ahead
  have solid : Layout.Solid src (here.stop = 0) (here.stop + gap.length) := by
    rw [← precedes.start]
    exact next.piece.solid_text behind precedes.delimited precedes.legible fun isMinus =>
      absurd isMinus precedes.late
  have skips : Meets (Layout.skipAll src) (firstLine here.stop here.depth)
      (fun _ d => d = firstLine next.start here.depth) noFault :=
    Layout.skipAll_gap precedes.small precedes.ahead solid (by rw [precedes.start]; rfl)
  obtain ⟨_, _, layout, rfl⟩ := skips.exists_ok
  obtain ⟨t, _, reads, isPiece, start, rfl⟩ :=
    (here.token_next behind precedes.delimited precedes.legible loose).exists_ok
  have cursor : { p.cursor with lineBreak := some false } = firstLine here.stop here.depth := by
    rw [at_piece.cursor]
    rfl
  rw [← cursor] at layout
  have fetched : Parse.lex p = .ok p.lookahead (p.giving.fetched p.cursor.toMark
      (firstLine next.start here.depth) (firstLine next.stop next.depth) t) :=
    (lex_ok_iff coherent.source).mpr ⟨_, _, t, layout, reads, rfl, rfl⟩
  have lexed := (lex_meets coherent.toPoised).of_ok fetched
  obtain ⟨t', coherent'⟩ := lexed.2.1.coherent
  obtain rfl : t = t' := Option.some.inj coherent'.lookahead
  rw [Meets, fetched]
  exact ⟨rfl, ⟨t, coherent', isPiece, start⟩, rfl⟩

end

end AtPiece

theorem peek_piece {settings : Settings} {code : Text}
    (found : (Parser.sourceOf code).ahead 0 = here.piece.text ++ rest) (first : here.start = 0)
    (delimited : here.piece.Delimited rest) (legible : here.piece.depthAfter? 0 = some here.depth)
    (late : here.piece.text.head? ≠ some 0x2D) :
    Meets peek (Parser.begin { settings } code) (fun _ q => AtPiece (Parser.sourceOf code) here q)
      fails := by
  have solid : Layout.Solid (Parser.sourceOf code) true 0 :=
    here.piece.solid_text found delimited legible fun isMinus => absurd isMinus late
  have skips : Meets (Layout.skipAll (Parser.sourceOf code)) (firstLine 0 0)
      (fun _ d => d = firstLine 0 0) noFault := Layout.skipAll_solid solid rfl
  obtain ⟨_, _, layout, rfl⟩ := skips.exists_ok
  obtain ⟨t, after, reads, lexeme, raw, start, rfl⟩ :=
    (Lexer.token_piece (c := firstLine 0 0) false (some 0) found delimited rfl legible nofun).exists_ok
  have fetched : peek (Parser.begin { settings } code) = .ok () ((Parser.begin { settings } code).fetched
      (firstLine 0 0).toMark (firstLine 0 0) _ t) :=
    (peek_ok_iff rfl).mpr ⟨_, _, t, layout, reads, rfl⟩
  obtain ⟨⟨t', coherent⟩, -⟩ := (peek_meets (.of_begin _ _)).of_ok fetched
  obtain rfl : t = t' := Option.some.inj coherent.lookahead
  rw [Meets, fetched]
  refine ⟨⟨t, coherent, ⟨lexeme, raw⟩, start.trans first.symm⟩, ?_⟩
  rw [Placed.stop, first]
  rfl

end

/-! ### The directive -/

abbrev directiveAt (start depth : Nat) : Placed :=
  ⟨.quoted useStrict, start, depth⟩

abbrev markAt (mark : Punctuator) (start depth : Nat) : Placed :=
  ⟨.mark mark, start, depth⟩

/-- A mark is no word. -/
theorem Punctuator.not_spelledOut (mark : Punctuator) : ¬ IsSpelledOut mark.text := by
  rintro ⟨-, letters⟩
  revert letters
  cases mark <;> decide

section

variable {reader : Reader} {src : Source} {p q : Parser} {start depth : Nat} {rest : Text}
variable {fails : Fault → Parser → Prop}

theorem peek_directive {settings : Settings} {code : Text}
    (directed : (Parser.sourceOf code).Directed 0 rest)
    (peeked : peek (Parser.begin { settings } code) = .ok () p) :
    AtPiece (Parser.sourceOf code) (directiveAt 0 0) p := by
  have first : Meets peek (Parser.begin { settings } code)
      (fun _ q => AtPiece (Parser.sourceOf code) (directiveAt 0 0) q) noFault :=
    peek_piece directed.ahead rfl (.inr ⟨_, _, rfl, by decide⟩) rfl (by decide)
  have here := first.of_ok peeked
  exact here

theorem lex_semicolon (directed : src.Directed start rest)
    (here : AtPiece src (directiveAt start depth) p) :
    Meets lex p (fun given q => given = p.lookahead ∧ AtPiece src (markAt .semicolon (start + 12) depth) q)
      fails := by
  have precedes : (directiveAt start depth).Precedes src (markAt .semicolon (start + 12) depth) [] rest :=
    ⟨.inl rfl, directed.semicolon, rfl, directed.delimited, rfl, show Punctuator.semicolon.text.head? ≠ _ by
      decide⟩
  exact here.lex precedes fun _ => Punctuator.not_spelledOut _

theorem Leaf.of_directive (reader : Reader) (directed : src.Directed start rest) :
    Leaf reader (AtPiece src (directiveAt start depth)) (fun node q =>
      node = .literal (.string useStrict.text) useStrict.written ∧
        AtPiece src (markAt .semicolon (start + 12) depth) q) fails where
  starts here := ⟨.string useStrict.text false, here.looks, rfl, rfl, nofun, nofun⟩
  context here := here.present
  before_still here still := here.still still
  primary {p} here := by
    obtain ⟨token, coherent, isString, raw, -⟩ := here.string
    have looks : p.Looks (.string useStrict.text false) := ⟨token, coherent.lookahead, isString⟩
    refine looks.lookahead_bind fun other looked _ => ?_
    obtain rfl : token = other := Option.some.inj (coherent.lookahead.symm.trans looked)
    simp only [isString, raw, refuseOctalString]
    refine .modify_bind (.into (.pure ?_))
    have still : p.Still { p with assignmentTarget := some false, bindingElement := some false } :=
      ⟨rfl, rfl, rfl, rfl, id, id⟩
    refine .into (((lex_semicolon directed (here.still still)).and_returns
      (lex_quiet.undisturbed _)).bind ?_)
    rintro _ q ⟨⟨-, behind⟩, quiet⟩
    exact ⟨⟨rfl, behind⟩, congrArg Registers.coverInitialized quiet.registers⟩
  after_still met still := ⟨met.1, met.2.still still⟩
  context_after met := met.2.present
  ends met := met.2.looks

theorem listItem_directive (directed : src.Directed start rest)
    (here : AtPiece src (directiveAt start depth) p)
    (goes : ∀ s, AtPiece src (markAt .semicolon (start + 12) depth) s → Meets lex s (fun _ _ => True) fails) :
    Meets (listItem reader) p (fun statement q => statement = strictDirective ∧
      (∃ s given, AtPiece src (markAt .semicolon (start + 12) depth) s ∧ lex s = .ok given q) ∧
        q.coverInitialized = p.coverInitialized) fails := by
  obtain ⟨string, coherent, isString, -⟩ := here.string
  have looks : p.Looks (.string useStrict.text false) := ⟨string, coherent.lookahead, isString⟩
  refine looks.lookahead_bind fun _ _ isString => ?_
  simp only [isString]
  refine looks.lookahead_bind fun _ _ isString => ?_
  simp only [isString]
  refine .modify_bind ?_
  have still : p.Still { p with assignmentTarget := some true, bindingElement := some true } :=
    ⟨rfl, rfl, rfl, rfl, id, id⟩
  refine ((Leaf.of_directive reader directed).expression (here.still still)).bind ?_
  rintro _ s ⟨⟨rfl, behind⟩, cover⟩
  -- The semicolon is the one of the directive; taking it reads the next token.
  obtain ⟨token, coherent, -, index⟩ := behind.token
  obtain ⟨mark, start_eq⟩ := coherent.start
  have place : mark.index = start + 12 := by
    have same := coherent.start_eq
    rw [start_eq, index] at same
    exact Option.some.inj same
  have semicolon : src[mark.index]? = some 0x3B := by
    rw [place]
    exact getElem?_head directed.semicolon
  have ends : Meets consumeSemicolon s (fun _ q => ∃ given, lex s = .ok given q) fails := by
    unfold consumeSemicolon Parse.source startMark
    simp only [bind_assoc]
    refine .get_bind ?_
    simp only [behind.source, pure_bind]
    refine .get_bind ?_
    simp only [start_eq, pure_bind, semicolon, if_true]
    refine .into (((goes s behind).and_returns
      (.of_returns fun given q run => (⟨given, run⟩ : ∃ given, lex s = .ok given q))).imp ?_)
    exact fun _ _ met => met.2
  refine ends.bind ?_
  rintro _ q ⟨given, run⟩
  have quiet := (lex_quiet.undisturbed s).of_ok run
  exact ⟨rfl, ⟨s, given, behind, run⟩, (congrArg Registers.coverInitialized quiet.registers).trans cover⟩

theorem stringStatement?_directive {after : Parser → Prop} (directed : src.Directed start rest)
    (here : AtPiece src (directiveAt start depth) p)
    (reads : Meets (reader .listItem) p (fun statement q => statement = strictDirective ∧
      q.source = some src ∧ after q) fails) : Meets (stringStatement? reader) p (fun found q => ∃ token,
      found = some (token, strictDirective, some (Text.ofString "use strict")) ∧ after q) fails := by
  obtain ⟨token, coherent, isString, -, place, stop⟩ := here.string
  have length : useStrict.written.length = 12 := by decide
  have text : src.slice (token.start + 1) (token.stop - 1) = Text.ofString "use strict" := by
    rw [place, stop, length]
    exact directed.slice
  have looks : p.Looks (.string useStrict.text false) := ⟨token, coherent.lookahead, isString⟩
  refine coherent.inside_ite (by rw [isString]; nofun) ?_
  refine looks.lookahead_bind fun other looked _ => ?_
  obtain rfl : token = other := Option.some.inj (coherent.lookahead.symm.trans looked)
  simp only [isString]
  refine reads.bind ?_
  rintro _ q ⟨rfl, source, met⟩
  refine .into (.pure ?_)
  simp only [strictDirective, Node.isLiteral, if_true]
  unfold Parse.source
  rw [bind_assoc]
  refine .get_bind ?_
  simp only [source, pure_bind, text]
  exact ⟨token, rfl, met⟩

end

/-! ### The program behind it -/

section

variable {settings : Settings} {code rest : Text} {p q s : Parser} {t : Token}

/-- The program behind the directive, over the program alone. -/
def strictWindow (code : Text) : Window :=
  .shared strictly code [] [] (Parser.sourceOf code) (by simp [Source.ofText]) []

/-- What the directive leaves: strict code in front of a token that was still read as code that is not
strict. -/
structure Begun (settings : Settings) (code : Text) (p : Parser) : Prop where
  context : p.context = some {}
  settings : p.settings = settings
  settled : p.coverInitialized = none
  fetched : ∃ s given q strict, AtPiece (Parser.sourceOf code) (markAt .semicolon 12 0) s ∧ s.strict = some false ∧
    lex s = .ok given q ∧ p = { q with strict }

/-- The token behind the directive was fetched by the parser as any other. -/
theorem Begun.candid (begun : Begun settings code p) : p.Candid := by
  obtain ⟨s, given, q, strict, behind, -, run, rfl⟩ := begun.fetched
  obtain ⟨between, after, token, -, reads, -, rfl⟩ := (lex_ok_iff behind.source).mp run
  rintro _ ⟨⟩
  exact (Lexer.token_candid _ _).of_ok reads

theorem Begun.source (begun : Begun settings code p) : p.source = some (Parser.sourceOf code) := by
  obtain ⟨s, given, q, strict, behind, -, run, rfl⟩ := begun.fetched
  obtain ⟨_, _, _, -, -, -, rfl⟩ := (lex_ok_iff behind.source).mp run
  exact behind.source

/-- The registers of a program of which only the first token has been fetched. -/
structure Unbegun (settings : Settings) (p : Parser) : Prop where
  context : p.context = some {}
  settings : p.settings = settings
  strict : p.strict = some false
  settled : p.coverInitialized = none

theorem Unbegun.of_peek (peeked : peek (Parser.begin { settings } code) = .ok () p) : Unbegun settings p := by
  have kept := peek_keeps.of_ok peeked
  have quiet := (peek_quiet.undisturbed _).of_ok peeked
  exact ⟨kept.context, congrArg Registers.settings quiet.registers, kept.strict,
    congrArg Registers.coverInitialized quiet.registers⟩

theorem readerOf_directive {depth : Nat} (directed : (Parser.sourceOf code).Directed 0 rest)
    (here : AtPiece (Parser.sourceOf code) (directiveAt 0 0) p) (unbegun : Unbegun settings p) :
    Meets (readerOf depth .listItem) p
      (fun statement q => statement = strictDirective ∧ Begun settings code q) anyFault := by
  cases depth with
  | zero => trivial
  | succ depth =>
    have restores := (readerOf_restores (depth + 1)).keeps .listItem p
    obtain ⟨token, coherent, -⟩ := here.token
    obtain ⟨journal, performs⟩ :=
      (readerOf_logs (depth + 1) .listItem p (by rw [coherent.lookahead]; rfl)).performs
    have read : Meets (listItem (readerOf depth)) p _ anyFault :=
      listItem_directive directed here fun _ _ => Meets.any
    refine ((read.and_returns restores).and_returns performs.settings).imp ?_
    rintro statement q ⟨⟨⟨rfl, ⟨s, given, behind, run⟩, cover⟩, kept⟩, same⟩
    have strict : q.strict = s.strict := (lex_keeps.of_ok run).strict
    exact ⟨rfl, kept.context.trans unbegun.context, same.trans unbegun.settings, cover.trans unbegun.settled,
      s, given, q, q.strict, behind, strict.symm.trans (kept.strict.trans unbegun.strict), run, rfl⟩

/-- The first round of the script reads the directive. -/
theorem scriptRound_directive {depth : Nat} (directed : (Parser.sourceOf code).Directed 0 rest)
    (here : AtPiece (Parser.sourceOf code) (directiveAt 0 0) p) (unbegun : Unbegun settings p) :
    Meets (scriptRound (readerOf depth) refuseOctal ([], some none)) p (fun answer q =>
      answer = .inl ([strictDirective], some none) ∧ Begun settings code q ∧ q.strict = some true)
      anyFault := by
  rw [scriptRound_some, directiveRound_eq]
  have reads : Meets (readerOf depth .listItem) p (fun statement q => statement = strictDirective ∧
      q.source = some (Parser.sourceOf code) ∧ Begun settings code q) anyFault := by
    refine (readerOf_directive directed here unbegun).imp fun _ _ met => ?_
    exact ⟨met.1, met.2.source, met.2⟩
  refine Meets.map_iff.mpr ((stringStatement?_directive directed here reads).bind ?_)
  rintro _ q ⟨token, rfl, begun⟩
  obtain ⟨context, same, settled, s, given, q', strict, behind, sloppy, run, rfl⟩ := begun
  refine .modify_bind (.into (.pure ?_))
  exact ⟨rfl, ⟨context, same, settled, s, given, q', some true, behind, sloppy, run, rfl⟩, rfl⟩

theorem peek_begun (begun : Begun settings (strictly ++ code) p) :
    Meets peek (Parser.begin { settings } code)
      (fun _ q => q.context = some {} ∧ q.settings = settings ∧ q.isStrict = false ∧
        ∃ t u, (strictWindow code).Facing False p q t u) (only .exhausted) := by
  obtain ⟨context, -, -, s, given, q, strict, behind, -, run, rfl⟩ := begun
  have lineFeed := (strictly_directed code).behind
  have fetched := run
  obtain ⟨between, after, t, layout, reads, -, rfl⟩ := (lex_ok_iff behind.source).mp fetched
  obtain ⟨_, coherent₀, -⟩ := behind.token
  obtain ⟨-, ⟨⟨token, coherent⟩, -⟩, -⟩ := (lex_meets coherent₀.toPoised).of_ok run
  obtain rfl : t = token := Option.some.inj coherent.lookahead
  -- On the left the line feed is skipped first; from there on both sides are at the start of a line.
  obtain ⟨_, _, begun, layout⟩ := bind_ok_iff.mp layout
  cases begun
  obtain ⟨_, _, begun, layout⟩ := bind_ok_iff.mp layout
  cases begun
  obtain ⟨answer, c, first, layout⟩ := bind_ok_iff.mp layout
  have broken : Meets (Layout.piece (Parser.sourceOf (strictly ++ code)) (decide (s.cursor.index = 0)))
      { s.cursor with lineBreak := some false }
      (fun answer c => answer = .inl true ∧ c.index = 14 ∧ c.braces = some []) anyFault := by
    rw [behind.cursor]
    exact Layout.piece_lineFeed (by exact lineFeed) ⟨rfl, rfl, rfl⟩
  obtain ⟨rfl, index, braces⟩ := broken.of_ok first
  have abreast : (strictWindow code).Abreast False c
      { (Parser.begin { settings } code).cursor with lineBreak := some false } := by
    have base : (strictWindow code).leftBase = 14 := rfl
    refine ⟨⟨Nat.le_of_eq (base.trans index.symm), ?_, [], braces, rfl⟩, False.elim⟩
    rw [index, base]
    rfl
  have early : c.index ≤ (strictWindow code).length + 3 := by
    have length : (strictWindow code).length = 14 + code.length := List.length_append
    omega
  refine peek_spent rfl ?_
  refine .modify_bind (.get_bind ?_)
  have source : (Parser.begin { settings } code).source = some (strictWindow code).right := rfl
  refine (Pairing.pieces_copy coherent layout reads abreast early source).imp ?_
  intro _ between' copy
  refine copy.imp fun u after' met => ⟨rfl, rfl, rfl, t, u, ?_⟩
  exact (met.2 (met.1.tighter nofun) _).still ⟨rfl, rfl, rfl, rfl, id, id⟩ (.refl _) id

theorem script_begun {body : List Node} {rounds : Nat} (begun : Begun settings (strictly ++ code) p)
    (script : scriptFrom (readerFor (strictly ++ code)) refuseOctal rounds
      ([strictDirective], some none) p = .ok body q) :
    ∃ found, parse settings code = .ok (.program found) ∧ body = strictDirective :: found := by
  refine parse_of_meets ((peek_begun begun).imp fun _ r met => scriptBody_meets fun rounds' => ?_)
  obtain ⟨context, settled, notStrict, t, u, facing⟩ := met
  have place : code.length + strictly.length = (strictly ++ code).length + 0 := by
    rw [List.length_append, Nat.add_comm, Nat.add_zero]
  let w := Pairing.toEnd (strictWindow code) (.ofText _) place
  have near : w.Near False .loose p r :=
    ⟨⟨begun.context.trans context.symm, begun.settings.trans settled.symm,
      (fun strict => nomatch notStrict.symm.trans strict), False.elim, False.elim⟩, t, u, facing⟩
  have scripting : w.Scripting True (fun l l' => l = strictDirective :: l')
      ([strictDirective], some none) p ([], some none) r := by
    refine ⟨rfl, ?_, .inl ⟨near, nofun⟩⟩
    rintro _ _ ⟨⟩ ⟨⟩ _ impossible
    exact impossible
  have snoc {l l' : List Node} (item : Node) (same : l = strictDirective :: l') :
      l ++ [item] = strictDirective :: (l' ++ [item]) := by rw [same, List.cons_append]
  refine Pairing.script_onto (Pairing.readerOf_mates _ _) snoc (fun _ _ => True)
    (fun l _ found _ => l = strictDirective :: found) refuseOctal_calm
    (fun refused => Pairing.refuseOctal_mirrors (refused trivial)) ?_ scripting script trivial rounds'
  intro l state' p q same parted _ rounds
  exact (Parser.AtEnd.script_ends parted.beyond rounds state').imp fun found _ ends => ends ▸ same

/-- What follows the directive is read by a strict parser once the directive has been taken. -/
theorem parse_directed {root : Node} (directed : (Parser.sourceOf code).Directed 0 rest)
    (parsed : parse settings code = .ok root) :
    ∃ p q rounds body, Begun settings code p ∧ p.strict = some true ∧ root = .program body ∧
      scriptFrom (readerFor code) refuseOctal rounds ([strictDirective], some none) p = .ok body q := by
  obtain ⟨p, p', body, peeked, script, rfl⟩ := parse_ok parsed
  obtain ⟨rounds, script⟩ := scriptBody_ok script
  cases rounds with
  | zero => cases script
  | succ rounds =>
    -- The first round takes the directive, and what is left is the program alone.
    obtain ⟨answer, q, first, script⟩ := bind_ok_iff.mp script
    obtain ⟨rfl, begun, strict⟩ :=
      (scriptRound_directive directed (peek_directive directed peeked) (.of_peek peeked)).of_ok first
    exact ⟨q, p', rounds, body, begun, strict, rfl, script⟩

theorem parse_strictly {root : Node} (parsed : parse settings (strictly ++ code) = .ok root) :
    ∃ p q rounds body, Begun settings (strictly ++ code) p ∧ p.strict = some true ∧ root = .program body ∧
      scriptFrom (readerFor (strictly ++ code)) refuseOctal rounds ([strictDirective], some none) p =
        .ok body q :=
  parse_directed (strictly_directed code) parsed

/-- Strict mode only removes programs: one that is read as strict code is read as code that is not
strict as well, and as the same statements. -/
theorem parse_of_strict {root : Node}
    (parsed : parse settings (Text.ofString "\"use strict\";\n" ++ code) = .ok root) :
    ∃ body, parse settings code = .ok (.program body) ∧ root = .program (strictDirective :: body) := by
  obtain ⟨p, q, rounds, body, begun, -, rfl, script⟩ := parse_strictly parsed
  obtain ⟨found, alone, rfl⟩ := script_begun begun script
  exact ⟨found, alone, rfl⟩

theorem parse_returns (settings : Settings) (code : Text) (isOk : (parse settings code).isOk = true) :
    ∃ root, parse settings code = .ok root := by
  cases parsed : parse settings code with
  | ok root => exact ⟨root, rfl⟩
  | error fault =>
    rw [parsed] at isOk
    cases isOk

/-- A name that strict code reserves is read in neither or in both, here as the property of an
object. -/
theorem parse_of_strict_reserved_property :
    ∃ root body, parse {} (Text.ofString "\"use strict\";\n" ++ Text.ofString "a.let = {static: 1}") =
        .ok root ∧
      parse {} (Text.ofString "a.let = {static: 1}") = .ok (.program body) ∧
      root = .program (strictDirective :: body) := by
  obtain ⟨root, parsed⟩ := parse_returns {} (Text.ofString "\"use strict\";\n" ++
    Text.ofString "a.let = {static: 1}") (by decide +kernel)
  obtain ⟨body, alone, same⟩ := parse_of_strict parsed
  exact ⟨root, body, parsed, alone, same⟩

end

end EcmaScript
