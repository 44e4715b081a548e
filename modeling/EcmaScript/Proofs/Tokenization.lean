import EcmaScript.Parser.TokenStream
import EcmaScript.Proofs.Coherence

/-!
Tokenization loses nothing. Each token is spelled by the characters it spans, the next one is fetched
across a gap of layout, and the last one stands at the end, so that tokens and gaps together are the
source again.
-/

namespace EcmaScript

open Scan Character

/-- The texts that a token keeps are those of its span in the source. A piece of a template leaves
out its quote or brace in front, and the quote or the opening of a substitution behind. -/
structure Token.Spelled (src : Source) (token : Token) : Prop where
  raw : ∀ text, token.raw = some text → text = src.slice token.start token.stop
  template : ∀ cooked raw head tail, token.lexeme = .template cooked raw head tail →
    raw = src.slice (token.start + 1) (token.stop - if tail then 1 else 2)

/-! ### Every reader of tokens spells them -/

variable {token : Token}

section

variable {src : Source} {c : Cursor}

theorem Token.Spelled.of_plain (plain : token.lexeme.IsPlain)
    (raw : token.raw = some (src.slice token.start token.stop)) : token.Spelled src where
  raw text same := by
    rw [raw] at same
    exact (Option.some.inj same).symm
  template cooked raw head tail isTemplate := by
    rw [isTemplate] at plain
    exact plain.elim

theorem StringLiteral.token_spells (lineStart : Option Nat) :
    Meets (StringLiteral.token src lineStart) c (fun token _ => token.Spelled src) anyFault := by
  refine .past fun here d => .past fun quote e => ?_
  refine .ite (fun _ => ?_) fun _ => trivial
  exact .past fun _ _ => .past fun value f => .of_plain trivial rfl

theorem Template.token_spells :
    Meets (Template.token src) c (fun token _ => token.Spelled src) anyFault := by
  refine .past fun here d => .past fun first e => ?_
  refine .past fun _ _ => .past fun cooked f => .ite (fun _ => ?_) fun _ => ?_
  · refine ⟨nofun, fun _ _ _ _ isTemplate => ?_⟩
    cases isTemplate
    rfl
  · refine .past fun _ g => ?_
    refine show Token.Spelled src _ from ⟨nofun, fun _ _ _ _ isTemplate => ?_⟩
    cases isTemplate
    rfl

theorem Mark.token_spells : Meets (Mark.token src) c (fun token _ => token.Spelled src) anyFault := by
  refine .past fun here d => .past fun mark e => ?_
  exact ⟨nofun, nofun⟩

theorem Lexer.token_spells (strict : Bool) (lineStart : Option Nat) :
    Meets (Lexer.token src strict lineStart) c (fun token _ => token.Spelled src) anyFault := by
  refine token_cases (fun _ => ⟨nofun, nofun⟩) (fun parts rest d _ took => ?_) Mark.token_spells
    (StringLiteral.token_spells lineStart) (fun n rest d _ took => .of_plain trivial ?_)
    fun _ _ _ => Template.token_spells
  · refine .of_plain (named_plain strict (Lexeme.ofName_plain _)) ?_
    cases strict <;> exact congrArg some (took.index_eq ▸ took.slice).symm
  · exact congrArg some (took.index_eq ▸ took.slice).symm

/-! ### Only names are identifiers -/

/-- The token is no identifier. -/
def Token.Unnamed (token : Token) : Prop :=
  ∀ name, token.lexeme ≠ .identifier name

theorem StringLiteral.token_unnamed (lineStart : Option Nat) :
    Meets (StringLiteral.token src lineStart) c (fun token _ => token.Unnamed) anyFault := by
  refine .past fun here d => .past fun quote e => .ite (fun _ => ?_) fun _ => trivial
  exact .past fun _ _ => .past fun value f => show Token.Unnamed _ from nofun

theorem Template.token_unnamed :
    Meets (Template.token src) c (fun token _ => token.Unnamed) anyFault := by
  refine .past fun here d => .past fun first e => ?_
  refine .past fun _ _ => .past fun cooked f => .ite (fun _ => ?_) fun _ => ?_
  · exact nofun
  · exact .past fun _ g => show Token.Unnamed _ from nofun

theorem Mark.token_unnamed : Meets (Mark.token src) c (fun token _ => token.Unnamed) anyFault :=
  .past fun _ _ => .past fun _ _ => show Token.Unnamed _ from nofun

/-- An identifier comes from the parts of a name. -/
theorem Lexer.token_identifier (strict : Bool) (lineStart : Option Nat) :
    Meets (Lexer.token src strict lineStart) c (fun token d => ∀ name, token.lexeme = .identifier name →
      ∃ parts rest, NamePart.Spells parts ∧ c.Took src (NamePart.text parts) rest d ∧
        token = named strict (NamePart.token parts c)) anyFault := by
  have other {t : Token} {d : Cursor} (unnamed : t.Unnamed) (name : Text) (isName : t.lexeme = .identifier name) :
      ∃ parts rest, NamePart.Spells parts ∧ c.Took src (NamePart.text parts) rest d ∧
        t = named strict (NamePart.token parts c) := absurd isName (unnamed name)
  refine token_cases (fun _ => nofun) (fun parts rest d spells took name _ => ⟨parts, rest, spells, took, rfl⟩)
    (Mark.token_unnamed.imp fun _ _ => other) ((StringLiteral.token_unnamed lineStart).imp fun _ _ => other)
    (fun _ _ _ _ _ => nofun) fun _ _ _ => Template.token_unnamed.imp fun _ _ => other

end

/-! ### Tokens and gaps -/

/-- A token that is fetched from the index `i` on: behind a gap, spelled by its span, and empty only
at the end of the source. -/
structure Token.Tile (src : Source) (i : Nat) (token : Token) : Prop extends token.Spelled src where
  gap : Layout.Gap src i token.start
  ended : token.lexeme = .endOfSource → token.start = src.size ∧ token.stop = src.size
  moved : token.lexeme ≠ .endOfSource → token.start < token.stop ∧ token.stop ≤ src.size

/-- Each token is fetched from the end of the one before; the last one is the end of the source. -/
inductive Tiled (src : Source) : Nat → List Token → Prop
  | last {i : Nat} {token : Token} (tile : token.Tile src i)
    (isEnd : token.lexeme = .endOfSource) : Tiled src i [token]
  | next {i : Nat} {token : Token} {rest : List Token} (tile : token.Tile src i)
    (notEnd : token.lexeme ≠ .endOfSource) (tiled : Tiled src token.stop rest) :
    Tiled src i (token :: rest)

namespace TokenStream

def gaps (i : Nat) (tokens : List Token) : List (Nat × Nat) :=
  (i :: tokens.map (·.stop)).zip (tokens.map (·.start))

/-- The characters of all tokens and of the spans in front of them. -/
def characters (src : Source) (i : Nat) (tokens : List Token) : Text :=
  (List.zipWith (fun gap token =>
    src.slice gap.1 gap.2 ++ src.slice token.start token.stop) (gaps i tokens) tokens).flatten

/-- The tokens account for every character of the source. -/
structure Lossless (src : Source) (tokens : List Token) : Prop where
  words : ∃ words last, tokens = words ++ [last] ∧ last.lexeme = .endOfSource ∧
    last.start = src.size ∧ last.stop = src.size ∧
    ∀ token ∈ words, token.lexeme ≠ .endOfSource ∧ token.start < token.stop ∧ token.stop ≤ src.size
  ordered : tokens.Pairwise fun first second => first.stop ≤ second.start
  spelled : ∀ token ∈ tokens, token.Spelled src
  gaps : ∀ gap ∈ gaps 0 tokens, Layout.Gap src gap.1 gap.2
  complete : characters src 0 tokens = src.toList

end TokenStream

namespace Layout

variable {src : Source}

theorem LineRest.le {i j : Nat} (rest : LineRest src i j) : i ≤ j := by
  cases rest with
  | atEnd inLine => exact inLine.1
  | atBreak inLine ends => exact Nat.le_trans inLine.1 (Nat.le_of_lt ends.lt)

theorem IsPiece.le {fresh fresh' : Bool} {i j : Nat} (piece : IsPiece src fresh i fresh' j) : i ≤ j := by
  cases piece with
  | blank found isBlank => exact Nat.le_succ _
  | lineBreak ends => exact Nat.le_of_lt ends.lt
  | lineComment opens rest | openingComment opens rest | closingComment opens rest =>
    exact Nat.le_trans (Nat.le_add_right _ _) rest.le
  | blockComment opens rest =>
    cases rest with
    | closed after star slash first => omega

theorem Gap.le {i j : Nat} (gap : Gap src i j) : i ≤ j := by
  obtain ⟨fresh, pieces⟩ := gap
  induction pieces with
  | none => exact Nat.le_refl _
  | more before last ih => exact Nat.le_trans ih last.le

end Layout

namespace Tiled

open TokenStream

variable {src : Source} {i : Nat} {tokens : List Token}

section

variable (tiled : Tiled src i tokens)
include tiled

theorem words : ∃ words last, tokens = words ++ [last] ∧ last.lexeme = .endOfSource ∧
      last.start = src.size ∧ last.stop = src.size ∧
      ∀ token ∈ words, token.lexeme ≠ .endOfSource ∧ token.start < token.stop ∧
        token.stop ≤ src.size := by
  induction tiled with
  | @last i token tile isEnd =>
    obtain ⟨start, stop⟩ := tile.ended isEnd
    exact ⟨[], token, rfl, isEnd, start, stop, by simp⟩
  | @next i token rest tile notEnd tiled ih =>
    obtain ⟨words, last, rfl, isEnd, start, stop, inside⟩ := ih
    refine ⟨token :: words, last, rfl, isEnd, start, stop, ?_⟩
    intro other member
    rcases List.mem_cons.mp member with rfl | member
    · exact ⟨notEnd, tile.moved notEnd⟩
    · exact inside other member

/-- No token starts before the index from which the first one is fetched. -/
theorem le_start : ∀ token ∈ tokens, i ≤ token.start := by
  induction tiled with
  | last tile isEnd =>
    intro token member
    rw [List.mem_singleton.mp member]
    exact tile.gap.le
  | next tile notEnd tiled ih =>
    intro token member
    have moved := (tile.moved notEnd).1
    rcases List.mem_cons.mp member with rfl | member
    · exact tile.gap.le
    · exact Nat.le_trans (Nat.le_trans tile.gap.le (Nat.le_of_lt moved)) (ih token member)

theorem ordered : tokens.Pairwise fun first second => first.stop ≤ second.start := by
  induction tiled with
  | last tile isEnd => exact List.pairwise_singleton _ _
  | next tile notEnd tiled ih => exact .cons tiled.le_start ih

theorem spelled : ∀ token ∈ tokens, token.Spelled src := by
  induction tiled with
  | last tile isEnd => simpa using tile.toSpelled
  | next tile notEnd tiled ih => exact List.forall_mem_cons.mpr ⟨tile.toSpelled, ih⟩

theorem gaps : ∀ gap ∈ TokenStream.gaps i tokens, Layout.Gap src gap.1 gap.2 := by
  induction tiled with
  | last tile isEnd => simpa [TokenStream.gaps] using tile.gap
  | next tile notEnd tiled ih => exact List.forall_mem_cons.mpr ⟨tile.gap, ih⟩

end

theorem slice_append {j k : Nat} (first : i ≤ j) (second : j ≤ k) :
    src.slice i j ++ src.slice j k = src.slice i k := by
  rw [Source.slice, Source.slice, ← Array.toList_append, Array.extract_append_extract]
  simp [Source.slice, Nat.min_eq_left first, Nat.max_eq_right second]

theorem characters (tiled : Tiled src i tokens) : characters src i tokens = src.slice i src.size := by
  induction tiled with
  | last tile isEnd =>
    obtain ⟨start, stop⟩ := tile.ended isEnd
    simp [TokenStream.characters, TokenStream.gaps, start, stop, Layout.slice_self]
  | @next i token rest tile notEnd tiled ih =>
    obtain ⟨moved, bound⟩ := tile.moved notEnd
    calc TokenStream.characters src i (token :: rest)
        = src.slice i token.start ++ src.slice token.start token.stop ++
            TokenStream.characters src token.stop rest := rfl
      _ = src.slice i token.stop ++ src.slice token.stop src.size := by
          rw [ih, slice_append tile.gap.le (Nat.le_of_lt moved)]
      _ = src.slice i src.size :=
          slice_append (Nat.le_trans tile.gap.le (Nat.le_of_lt moved)) bound

end Tiled

theorem Tiled.lossless {src : Source} {tokens : List Token} (tiled : Tiled src 0 tokens) :
    TokenStream.Lossless src tokens where
  words := tiled.words
  ordered := tiled.ordered
  spelled := tiled.spelled
  gaps := tiled.gaps
  complete := by simpa [Source.slice] using tiled.characters

/-! ### The token loop -/

/-- What is known of the lookahead when the token before it ended at `i`. -/
structure Parser.Fetched (src : Source) (i : Nat) (p : Parser) (token : Token) : Prop where
  source : p.source = some src
  lookahead : p.lookahead = some token
  tile : token.Tile src i
  stop : p.cursor.index = token.stop
  bound : p.cursor.index ≤ src.size
  braces : ∃ braces, p.cursor.braces = some braces

namespace Parse

variable {src : Source} {p q : Parser}

/-- Skipping layout and reading a token fetches it. -/
theorem fetched_of_read {between after : Cursor} {strict : Bool} {lineStart : Option Nat}
    {braces : List Brace} (bound : p.cursor.index ≤ src.size)
    (opened : p.cursor.braces = some braces) (source : p.source = some src) (last : Mark)
    (layout : Layout.skipAll src { p.cursor with lineBreak := some false } = .ok () between)
    (reads : Lexer.token src strict lineStart between = .ok token after) :
    (p.fetched last between after token).Fetched src p.cursor.index token := by
  have gap := ((Layout.skipAll_passes (by exact bound)).of_ok layout).1
  have reach := ((Layout.skipAll_reaches (by exact bound)).of_ok layout).1
  have scanned := (Lexer.token_meets strict lineStart reach.bound (reach.braces.trans opened)).of_ok reads
  have spelled := (Lexer.token_spells strict lineStart).of_ok reads
  obtain ⟨_, braces', _, opened', _⟩ := scanned.braces
  refine ⟨source, rfl, ⟨spelled, ?_, ?_, ?_⟩, scanned.stop.symm, scanned.bound, braces', opened'⟩
  · rw [scanned.start]
    exact gap
  · intro isEnd
    rw [scanned.start, scanned.stop]
    exact scanned.ended isEnd
  · intro notEnd
    rw [scanned.start, scanned.stop]
    exact ⟨scanned.moved notEnd, scanned.bound⟩

theorem lex_fetched {i : Nat} {given : Option Token}
    (fetched : p.Fetched src i token) (run : lex p = .ok given q) :
    ∃ next, q.Fetched src token.stop next := by
  obtain ⟨braces, opened⟩ := fetched.braces
  obtain ⟨between, after, next, layout, reads, -, rfl⟩ := (lex_ok_iff fetched.source).mp run
  refine ⟨next, ?_⟩
  rw [← fetched.stop]
  exact fetched_of_read (p := p.giving) fetched.bound opened fetched.source _ layout reads

end Parse

namespace TokenStream

theorem rest_tiled {src : Source} (rounds : Nat) :
    ∀ {i : Nat} {p : Parser} {token : Token}, p.Fetched src i token →
      (rest rounds p).fault = none → Tiled src i ((rest rounds p).tokens.map Prod.fst) := by
  induction rounds with
  | zero =>
    intro i p token fetched ended
    cases ended
  | succ rounds ih =>
    intro i p token fetched ended
    simp only [rest, fetched.lookahead] at ended ⊢
    by_cases isEnd : token.lexeme = .endOfSource
    · simp only [if_pos isEnd]
      exact .last fetched.tile isEnd
    · simp only [if_neg isEnd] at ended ⊢
      cases run : Parse.lex p with
      | error fault q => simp [run] at ended
      | ok given q =>
        simp only [run] at ended ⊢
        obtain ⟨next, fetched'⟩ := Parse.lex_fetched fetched run
        exact .next fetched.tile isEnd (ih fetched' ended)

theorem rest_head? {p : Parser} (looked : p.lookahead = some token) (rounds : Nat) :
    (rest (rounds + 1) p).tokens.head? = some (token, p.cursor.lineBreak) := by
  simp only [rest, looked]
  split
  · rfl
  · split
    · rfl
    · rfl

theorem rest_cons {p q : Parser} {given : Option Token} (looked : p.lookahead = some token)
    (notEnd : token.lexeme ≠ .endOfSource) (run : Parse.lex p = .ok given q) (rounds : Nat) :
    (rest (rounds + 1) p).tokens = (token, p.cursor.lineBreak) :: (rest rounds q).tokens := by
  simp only [rest, looked, if_neg notEnd, run]

/-- Reading all tokens of a source, if no fault ends it early, loses no character. -/
theorem read_lossless (p : Parser) (src : Source) (strict : Option Bool) (context : Context)
    (ended : (read (p.load src 0 strict context [])).fault = none) :
    Lossless src ((read (p.load src 0 strict context [])).tokens.map Prod.fst) := by
  apply Tiled.lossless
  simp only [read] at ended ⊢
  cases run : Parse.peek (p.load src 0 strict context []) with
  | error fault q => simp [run] at ended
  | ok answer q =>
    simp only [run] at ended ⊢
    obtain ⟨between, after, token, layout, reads, rfl⟩ := (Parse.peek_ok_iff rfl).mp run
    exact rest_tiled _ (Parse.fetched_of_read (Nat.zero_le _) rfl rfl _ layout reads) ended

/-- A line break, a closing markup comment and the pieces of a template. -/
theorem read_lossless_template :
    (read (Parser.load {} (Source.ofText (Text.ofString "a\n--> x\n`b$\x7bc\x7d`")) 0 (some false)
      {} [])).fault = none ∧ Lossless (Source.ofText (Text.ofString "a\n--> x\n`b$\x7bc\x7d`"))
      ((read (Parser.load {} (Source.ofText (Text.ofString "a\n--> x\n`b$\x7bc\x7d`")) 0
        (some false) {} [])).tokens.map Prod.fst) := by
  have ended : (read (Parser.load {} (Source.ofText (Text.ofString "a\n--> x\n`b$\x7bc\x7d`")) 0
      (some false) {} [])).fault = none := by
    decide +kernel
  exact ⟨ended, read_lossless _ _ _ _ ended⟩

/-- With a round for each place from the lookahead on, only a token that is refused ends the loop
early. -/
theorem rest_acceptable {src : Source} {rounds : Nat} {p : Parser} (coherent : Coherent src p token)
    (enough : src.size < p.place + rounds) :
    ∀ fault ∈ (rest rounds p).fault, Acceptable src fault (rest rounds p).parser := by
  induction rounds generalizing p token with
  | zero =>
    have within := Nat.le_trans coherent.place_le coherent.bound
    omega
  | succ rounds ih =>
    simp only [rest, coherent.lookahead]
    by_cases isEnd : token.lexeme = .endOfSource
    · simp [isEnd]
    · have fetches := Parse.lex_meets coherent.toPoised
      simp only [if_neg isEnd]
      cases run : Parse.lex p with
      | error fault q => simpa using fetches.of_error run
      | ok given q =>
        obtain ⟨-, lexed, -⟩ := fetches.of_ok run
        obtain ⟨next, coherent'⟩ := lexed.coherent
        have moved := coherent.place_lt isEnd
        exact ih coherent' (by have := lexed.place; omega)

/-- Reading all tokens of a source never runs out of rounds: it comes to the end of the source or to a
token that is refused. -/
theorem read_acceptable (p : Parser) (src : Source) (strict : Option Bool) (context : Context) :
    ∀ fault ∈ (read (p.load src 0 strict context [])).fault,
      Acceptable src fault (read (p.load src 0 strict context [])).parser ∧ fault ≠ .exhausted := by
  have poised : Poised src (p.load src 0 strict context []) :=
    ⟨rfl, ⟨_, rfl⟩, ⟨_, rfl⟩, ⟨_, rfl⟩, Nat.zero_le _⟩
  have fetches := Parse.peek_meets poised
  intro fault ended
  have acceptable : Acceptable src fault (read (p.load src 0 strict context [])).parser := by
    unfold read at ended ⊢
    cases run : Parse.peek (p.load src 0 strict context []) with
    | error fault q =>
      simp only [run] at ended ⊢
      cases ended
      exact fetches.of_error run
    | ok _ q =>
      simp only [run] at ended ⊢
      obtain ⟨token, coherent⟩ := (fetches.of_ok run).coherent
      exact rest_acceptable coherent (Nat.lt_of_lt_of_le (Nat.lt_add_of_pos_right (by decide))
        (Nat.le_add_left _ _)) fault ended
  exact ⟨acceptable, acceptable.ne_exhausted⟩

end TokenStream

end EcmaScript
