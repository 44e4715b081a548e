import EcmaScript.Proofs.Context
import EcmaScript.Proofs.Fetching
import EcmaScript.Proofs.Lexing

/-!
The lookahead of a parser. Between two steps of the grammar the lookahead is the token that was read
last, it starts where the register says and ends at the cursor. A parser in such a state is at a
place, the start of its lookahead, and at a level, the number of braces that were open before it.
Taking a token goes to a later place and changes the level by the weight of the token.
-/

namespace EcmaScript

variable {α β : Type}

/-- The faults that a rule may end in. Those of the last kind need a source that is not sealed. -/
def Acceptable (src : Source) (fault : Fault) (p : Parser) : Prop :=
  match fault with
  | .malformed .. | .unsupported _ => True
  | .noOpenBrace =>
    p.scanning = some true ∧ src[p.cursor.index]? = some 0x7D ∧ p.cursor.braces = some []
  | .pastEnd | .missingKey => ∀ length, ¬ Sealed src length
  | _ => False

theorem Acceptable.ne_exhausted {src : Source} {fault : Fault} {p : Parser}
    (acceptable : Acceptable src fault p) : fault ≠ .exhausted := by
  rintro rfl
  exact acceptable

/-- The registers that reading a token needs are there. -/
structure Poised (src : Source) (p : Parser) : Prop where
  source : p.source = some src
  start : ∃ mark, p.start = some mark
  context : ∃ c, p.context = some c
  braces : ∃ braces, p.cursor.braces = some braces
  bound : p.cursor.index ≤ src.size

/-- A parser that begins with a program is ready for its first token. -/
theorem Poised.of_begin (p : Parser) (code : Text) :
    Poised (Source.ofText (code ++ Parser.sentinel)) (p.begin code) :=
  ⟨rfl, ⟨_, rfl⟩, ⟨_, rfl⟩, ⟨_, rfl⟩, Nat.zero_le _⟩

/-- `token` is the lookahead, and the cursor stands behind it. -/
structure Coherent (src : Source) (p : Parser) (token : Token) : Prop extends Poised src p where
  lookahead : p.lookahead = some token
  start_eq : p.start.map (·.index) = some token.start
  last : ∃ mark, p.last = some mark
  stop_eq : token.stop = p.cursor.index
  ended : token.lexeme = .endOfSource → token.start = src.size ∧ token.stop = src.size
  moved : token.lexeme ≠ .endOfSource → token.start < token.stop
  mark : ∀ mark, token.lexeme = .punctuator mark →
    src[token.start]? = mark.text.head? ∧ token.stop = token.start + mark.text.length
  slash : token.lexeme = .punctuator .slash ∨ token.lexeme = .punctuator .slashAssign →
    src[token.start]? = some 0x2F ∧ Layout.NoComment src token.start
  semicolon : src[token.start]? = some 0x3B → token.lexeme.weight = 0
  keyword : ∀ word, token.lexeme = .keyword word → ∀ length, Sealed src length → token.stop ≤ length

namespace Parser

def place (p : Parser) : Nat :=
  (p.start.map (·.index)).getD 0

/-- The number of braces that were open before the lookahead. -/
def level (p : Parser) : Int :=
  ((p.cursor.braces.map List.length).getD 0 : Nat) -
    (p.lookahead.map fun token => token.lexeme.weight).getD 0

/-- The parser has come to the place `k` at least, at this level. -/
structure At (src : Source) (k : Nat) (level : Int) (p : Parser) : Prop where
  coherent : ∃ token, Coherent src p token
  place : k ≤ p.place
  level : p.level = level

end Parser

namespace Parse

variable {src : Source} {p : Parser}

theorem located_acceptable {fault : ScanFault} {c : Cursor} (unread : Unread src c fault p.cursor)
    (scanning : p.scanning = some true) : Acceptable src (p.located fault) p := by
  rcases unread with excused | ⟨rfl, here, found, opened⟩
  · cases fault with
    | illegal | unterminatedRegExp | templateOctal => trivial
    | pastEnd => exact excused.1
    | noOpenBrace | noContext | notNumeric | notString | notRegExp | noNumber | exhausted =>
      exact excused.elim
  · rw [← here] at found opened
    exact ⟨scanning, found, opened⟩

/-- The state of `q` after a token has been read from where `p` stood. The token is not the end if
`p` stood inside the program of a sealed source. -/
structure Lexed (src : Source) (p q : Parser) : Prop where
  coherent : ∃ token, Coherent src q token
  place : p.cursor.index ≤ q.place
  level : q.level = (p.cursor.braces.map List.length).getD 0
  inside : ∀ length, Sealed src length → p.cursor.index ≤ length → q.place < src.size
  solid : Layout.Solid src (p.cursor.index = 0) p.cursor.index → q.place = p.cursor.index

/-- The cursor after the layout that stood before it. -/
structure Skipped (src : Source) (c d : Cursor) : Prop extends c.Reaches src d where
  plain : Layout.NoComment src d.index
  inside : ∀ length, Sealed src length → c.index ≤ length → d.index < src.size
  solid : Layout.Solid src (c.index = 0) c.index → d.index = c.index

theorem skipAll_meets {c : Cursor} (bound : c.index ≤ src.size) :
    Meets (Layout.skipAll src) { c with lineBreak := some false } (fun _ d => Skipped src c d)
      (Unread src { c with lineBreak := some false }) := by
  have stops : Meets (Layout.skipAll src) { c with lineBreak := some false }
      (fun _ d => (∀ length, Sealed src length → c.index ≤ length → d.index < src.size) ∧
        (Layout.Solid src (c.index = 0) c.index → d.index = c.index)) anyFault := by
    refine .of_returns fun _ d run => ⟨fun length ends early => ?_, fun solid => ?_⟩
    · have stops := Layout.skipAll_stops (c := { c with lineBreak := some false }) ends early
      have stopped := stops.of_ok run
      have size := ends.size_eq
      omega
    · have stays : Meets (Layout.skipAll src) { c with lineBreak := some false }
          (fun _ d => d.index = c.index) anyFault := Layout.skipAll_solid solid rfl
      have stayed := stays.of_ok run
      exact stayed
  have reaches := Layout.skipAll_reaches (c := { c with lineBreak := some false }) bound
  refine (reaches.and_returns stops).unread.imp ?_
  rintro _ d ⟨⟨reach, plain⟩, inside, solid⟩
  exact ⟨⟨reach.index, reach.bound, reach.braces⟩, plain, inside, solid⟩

section

variable (poised : Poised src p)
include poised

/-- A token is read behind the layout, whatever is noted as the end of the one before it. -/
theorem fetch_meets (strict : Bool) : Meets (Layout.skipAll src) { p.cursor with lineBreak := some false }
      (fun _ between => Meets (Lexer.token src strict (some between.lineStart)) between
        (fun token cursor => ∀ last, Lexed src p (p.fetched last between cursor token))
        (Unread src between)) (Unread src { p.cursor with lineBreak := some false }) := by
  obtain ⟨braces, opened⟩ := poised.braces
  refine (skipAll_meets poised.bound).imp fun _ between skipped => ?_
  have opened := skipped.braces.trans opened
  refine (Lexer.token_meets strict (some between.lineStart) skipped.bound opened).imp ?_
  intro token cursor met last
  obtain ⟨before, after, opened₀, opened', turns⟩ := met.braces
  have count := Lexeme.length_of_turn? turns
  cases opened.symm.trans opened₀
  have coherent : Coherent src (p.fetched last between cursor token) token :=
    { source := poised.source
      start := ⟨_, rfl⟩
      context := poised.context
      braces := ⟨after, opened'⟩
      bound := met.bound
      lookahead := rfl
      start_eq := congrArg some met.start.symm
      last := ⟨last, rfl⟩
      stop_eq := met.stop
      ended := fun isEnd => by simpa [met.start, met.stop] using met.ended isEnd
      moved := fun notEnd => by simpa [met.start, met.stop] using met.moved notEnd
      mark := fun mark isMark => by simpa [met.start, met.stop] using met.mark mark isMark
      slash := fun isSlash => by simpa [met.start] using ⟨met.slash isSlash, skipped.plain⟩
      semicolon := fun isSemicolon => met.semicolon (by simpa [met.start] using isSemicolon)
      keyword := fun word isWord length ends => by
        simpa [met.stop] using met.keyword word isWord length ends }
  refine ⟨⟨token, coherent⟩, skipped.index, ?_, skipped.inside, skipped.solid⟩
  simp [Parser.level, Parser.fetched, ← skipped.braces, opened, opened', count]

theorem lex_meets : Meets lex p (fun given q => given = p.lookahead ∧ Lexed src p q ∧
      q.last = some p.cursor.toMark) (Acceptable src) := by
  have giving : Poised src p.giving :=
    ⟨poised.source, poised.start, poised.context, poised.braces, poised.bound⟩
  refine (lex_iff poised.source).mpr ((fetch_meets giving p.isStrict).mono (fun _ between reads => ?_)
    fun _ _ unread => located_acceptable unread rfl)
  refine reads.mono (fun token cursor lexed => ?_) fun _ _ unread => located_acceptable unread rfl
  obtain ⟨coherent, place, level, inside, solid⟩ := lexed p.cursor.toMark
  exact ⟨rfl, ⟨coherent, place, level, inside, solid⟩, rfl⟩

theorem peek_meets : Meets peek p (fun _ q => Lexed src p q) (Acceptable src) := by
  refine (peek_iff poised.source).mpr ((fetch_meets poised p.isStrict).mono (fun _ between reads => ?_)
    fun _ _ unread => located_acceptable unread rfl)
  exact reads.mono (fun token cursor lexed => lexed _) fun _ _ unread => located_acceptable unread rfl

theorem regExp_meets (found : src[p.cursor.index]? = some 0x2F)
    (plain : Layout.NoComment src p.cursor.index) :
    Meets regExp p (fun _ q => Poised src q ∧ p.cursor.index < q.cursor.index ∧
      q.cursor.braces = p.cursor.braces) (Acceptable src) := by
  refine (regExp_iff poised.source).mpr ((skipAll_meets poised.bound).mono (fun _ cursor skipped => ?_)
    fun _ _ unread => located_acceptable unread rfl)
  have stays : cursor.index = p.cursor.index := skipped.solid (.of_slash found plain)
  have scans := (RegExp.scan_reaches (c := cursor) (stays ▸ found)).unread
  refine scans.mono (fun _ cursor' met => ?_) fun _ _ unread => located_acceptable unread rfl
  obtain ⟨reach, moved⟩ := met
  have braces : cursor'.braces = p.cursor.braces := reach.braces.trans skipped.braces
  exact ⟨⟨poised.source, poised.start, poised.context, braces ▸ poised.braces, reach.bound⟩,
    stays ▸ moved, braces⟩

end

theorem regExp_eq (source : p.source = some src) (found : src[p.cursor.index]? = some 0x2F)
    (plain : Layout.NoComment src p.cursor.index) : regExp p = scan RegExp.scan { p with
      scanning := some true, lookahead := none, cursor := { p.cursor with lineBreak := some false } } := by
  have skips : Meets (scan Layout.skipAll) { p with
      scanning := some true, lookahead := none, cursor := { p.cursor with lineBreak := some false } }
      (fun _ q => q = { p with
        scanning := some true, lookahead := none, cursor := { p.cursor with lineBreak := some false } })
      noFault :=
    (scan_iff (by exact source)).mpr (Layout.skipAll_solid (.of_slash found plain) rfl)
  obtain ⟨_, _, run, rfl⟩ := skips.exists_ok
  exact bind_of_ok run

/-- A regular expression is read just where its spelling stands: a pattern between slashes and the longest
flags behind it. Everything about the literal is that spelling and its parts. Elsewhere the program is
malformed, unless the source ends with a backslash that escapes nothing. -/
theorem regExp_takes_literal (source : p.source = some src) (slash : src[p.cursor.index]? = some 0x2F)
    {next : CodePoint} (behind : src[p.cursor.index + 1]? = some next) (plain : next ≠ 0x2F ∧ next ≠ 0x2A) :
    (∀ r q, regExp p = .ok r q ↔ ∃ pattern flags rest, RegExp.Spelled pattern flags rest ∧
      src.ahead p.cursor.index = RegExp.delimited pattern ++ flags ++ rest ∧
      r = { pattern, flags
            literal := RegExp.delimited pattern ++ flags
            raw := RegExp.delimited pattern ++ flags
            start := p.cursor.index
            stop := p.cursor.index + (RegExp.delimited pattern ++ flags).length } ∧
      q = { p with
            scanning := some true
            lookahead := none
            cursor := { p.cursor with lineBreak := some false, index := r.stop } }) ∧
    ((∀ i, src[i]? = some 0x5C → i + 1 < src.size) → (∀ r q, regExp p ≠ .ok r q) →
      ∃ line complaint q, regExp p = .error (.malformed line complaint) q) := by
  have noComment : Layout.NoComment src p.cursor.index := fun _ => ⟨next, behind, plain⟩
  have met := RegExp.scan_meets (c := { p.cursor with lineBreak := some false })
    (Source.ahead_of_found slash)
  rw [regExp_eq source slash noComment, scan_eq (by exact source)]
  dsimp only
  cases run : RegExp.scan src { p.cursor with lineBreak := some false } with
  | ok r cursor =>
    obtain ⟨pattern, flags, rest, spelled, rfl, took, -⟩ := met.of_ok run
    refine ⟨fun r q => ⟨?_, ?_⟩, fun _ none => absurd rfl (none _ _)⟩
    · rintro ⟨⟩
      refine ⟨pattern, flags, rest, spelled, took.found, rfl, ?_⟩
      rw [took.cursor]
      rfl
    · rintro ⟨pattern', flags', rest', spelled', found, rfl, rfl⟩
      have same := run.symm.trans (RegExp.scan_reads spelled' (by exact found))
      injection same with same cursor
      rw [same, cursor]
      rfl
  | error fault cursor =>
    obtain ⟨none, refused⟩ := met.of_error run
    refine ⟨fun r q => ⟨nofun, ?_⟩, fun escaping _ => ?_⟩
    · rintro ⟨pattern, flags, rest, spelled, found, -⟩
      exact absurd found (none pattern flags rest spelled)
    · rcases refused with ⟨rfl | rfl, -⟩ | ⟨-, -, index, last⟩
      · exact ⟨_, _, _, rfl⟩
      · exact ⟨_, _, _, rfl⟩
      · have inside := escaping index (Source.getElem?_head last)
        have length := src.length_ahead index
        rw [last, List.length_singleton] at length
        omega

theorem regExp_takes_literal_class : ∃ q, regExp { source := some (Source.ofText (Text.ofString "/[/\\]]\\//g;")) } =
    .ok { pattern := Text.ofString "[/\\]]\\/", flags := Text.ofString "g"
          literal := Text.ofString "/[/\\]]\\//g", raw := Text.ofString "/[/\\]]\\//g", start := 0, stop := 10 } q := by
  have spelled : RegExp.Spelled (Text.ofString "[/\\]]\\/") (Text.ofString "g") (Text.ofString ";") := by
    refine ⟨?_, by decide +kernel, Text.stops_cons (by decide +kernel), fun before after same => ?_⟩
    · have items : RegExp.ClassItems (Text.ofString "/\\]") :=
        .char (by decide) (by decide) (.escape (by decide) .nil)
      exact .charClass items (.escape (by decide) .nil)
    · cases before with
      | nil => cases same
      | cons _ before => cases before <;> cases same
  refine ⟨_, ((regExp_takes_literal (p := { source := some (Source.ofText (Text.ofString "/[/\\]]\\//g;")) })
    rfl (by decide) (show _ = some 0x5B by decide) (by decide)).1 _ _).mpr ⟨_, _, _, spelled, by decide, ?_, rfl⟩⟩
  decide

end Parse

/-! ### Places and levels -/

section

variable {src : Source} {p q : Parser} {token : Token} {k : Nat} {l : Int}

section

variable (coherent : Coherent src p token)
include coherent

theorem Coherent.place_eq : p.place = token.start := by
  simp [Parser.place, coherent.start_eq]

theorem Coherent.level_eq {braces : List Brace}
    (opened : p.cursor.braces = some braces) : p.level + token.lexeme.weight = braces.length := by
  simp [Parser.level, coherent.lookahead, opened]

theorem Coherent.place_le : p.place ≤ p.cursor.index := by
  rw [coherent.place_eq, ← coherent.stop_eq]
  by_cases isEnd : token.lexeme = .endOfSource
  · obtain ⟨start, stop⟩ := coherent.ended isEnd
    exact Nat.le_of_eq (start.trans stop.symm)
  · exact Nat.le_of_lt (coherent.moved isEnd)

theorem Coherent.place_lt (notEnd : token.lexeme ≠ .endOfSource) : p.place < p.cursor.index := by
  rw [coherent.place_eq, ← coherent.stop_eq]
  exact coherent.moved notEnd

theorem Coherent.place_lt_size_iff : p.place < src.size ↔ token.lexeme ≠ .endOfSource := by
  constructor
  · intro inside isEnd
    rw [coherent.place_eq, (coherent.ended isEnd).1] at inside
    exact Nat.lt_irrefl _ inside
  · intro notEnd
    exact Nat.lt_of_lt_of_le (coherent.place_lt notEnd) coherent.bound

theorem Coherent.congr (source : q.source = p.source)
    (start : q.start = p.start) (last : ∃ mark, q.last = some mark) (cursor : q.cursor = p.cursor)
    (lookahead : q.lookahead = p.lookahead) (context : ∃ c, q.context = some c) : Coherent src q token :=
  { coherent with
    source := source.trans coherent.source
    start := start ▸ coherent.start
    context
    braces := cursor ▸ coherent.braces
    bound := cursor ▸ coherent.bound
    lookahead := lookahead.trans coherent.lookahead
    start_eq := start ▸ coherent.start_eq
    last
    stop_eq := cursor ▸ coherent.stop_eq }

theorem Coherent.noted (precedence : Option Nat) :
    Coherent src { p with lookahead := p.lookahead.map fun token => { token with precedence } }
      { token with precedence } :=
  { coherent with
    lookahead := by rw [coherent.lookahead]; rfl }

end

namespace Parser.At

section

variable (here : p.At src k l)
include here

theorem mono {k' : Nat} (less : k' ≤ k) : p.At src k' l :=
  ⟨here.coherent, Nat.le_trans less here.place, here.level⟩

theorem self : p.At src p.place l :=
  ⟨here.coherent, Nat.le_refl _, here.level⟩

theorem congr (source : q.source = p.source) (start : q.start = p.start)
    (last : ∃ mark, q.last = some mark) (cursor : q.cursor = p.cursor)
    (lookahead : q.lookahead = p.lookahead) (context : ∃ c, q.context = some c) : q.At src k l := by
  obtain ⟨token, coherent⟩ := here.coherent
  refine ⟨⟨token, coherent.congr source start last cursor lookahead context⟩, ?_, ?_⟩
  · simpa [Parser.place, start] using here.place
  · simpa [Parser.level, cursor, lookahead] using here.level

theorem place_le_size : p.place ≤ src.size := by
  obtain ⟨token, coherent⟩ := here.coherent
  exact Nat.le_trans coherent.place_le coherent.bound

end

end Parser.At

end

end EcmaScript
