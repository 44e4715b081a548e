import Mathlib.Data.List.Induction
import EcmaScript.Proofs.Positions

/-!
The nesting of braces. A brace and the head of a template open a bracket, a closing brace and the tail
of a template close one, and the pieces between two substitutions of a template do both. However far
the tokens of a source have been fetched, their brackets are the beginning of a well-nested word, and
the open braces in the cursor are the brackets of that word that are not closed yet. Reading a token
fails for want of an open brace only where there is none.
-/

namespace EcmaScript

open List Parse

/-! ### Words of brackets -/

/-- Words in which each bracket is closed by one of its kind. `inner` is the innermost brace around the
word, if there is one: the middle of a template stands in a substitution, at no depth of its own. -/
inductive Nested : Option Brace → List Bracket → Prop where
  | nil {inner : Option Brace} : Nested inner []
  | enclosed {inner : Option Brace} {brace : Brace} {word rest : List Bracket}
    (inside : Nested (some brace) word) (behind : Nested inner rest) :
    Nested inner (.opener brace :: (word ++ .closer brace :: rest))
  | middle {rest : List Bracket} (behind : Nested (some .substitution) rest) :
    Nested (some .substitution) (.middle :: rest)

/-- A word that may go on, and the braces that it has opened and not closed, the innermost one last. -/
inductive Unclosed : List Bracket → List Brace → Prop where
  | closed {word : List Bracket} (nested : Nested none word) : Unclosed word []
  | opened {word rest : List Bracket} {braces : List Brace} {brace : Brace}
    (before : Unclosed word braces) (inside : Nested (some brace) rest) :
    Unclosed (word ++ .opener brace :: rest) (braces ++ [brace])

/-- The open braces after a word. -/
def Bracket.afterAll? : List Bracket → List Brace → Option (List Brace)
  | [], braces => some braces
  | bracket :: word, braces => (bracket.after? braces).bind (afterAll? word)

theorem Bracket.afterAll?_append (word rest : List Bracket) (braces : List Brace) :
    afterAll? (word ++ rest) braces = (afterAll? word braces).bind (afterAll? rest) := by
  induction word generalizing braces with
  | nil => rfl
  | cons bracket word ih => cases here : bracket.after? braces <;> simp [afterAll?, here, ih]

theorem Nested.append {inner : Option Brace} {word rest : List Bracket} (nested : Nested inner word)
    (behind : Nested inner rest) : Nested inner (word ++ rest) := by
  induction nested with
  | nil => exact behind
  | enclosed inside _ _ ih =>
    rw [cons_append, append_assoc]
    exact .enclosed inside (ih behind)
  | middle _ ih => exact .middle (ih behind)

variable {braces : List Brace}

/-- A well-nested word leaves the open braces around it as they are. -/
theorem Nested.afterAll? {inner : Option Brace} {word : List Bracket} (nested : Nested inner word)
    (innermost : braces.getLast? = inner) :
    Bracket.afterAll? word braces = some braces := by
  induction nested generalizing braces with
  | nil => rfl
  | enclosed _ _ insideIH behindIH =>
    simp [Bracket.afterAll?_append, Bracket.afterAll?, Bracket.after?, insideIH, behindIH innermost]
  | middle _ ih =>
    simp [Bracket.afterAll?, Bracket.after?, innermost, ih innermost]

namespace Unclosed

variable {word rest : List Bracket} {braces after : List Brace} {brace : Brace}

theorem append (unclosed : Unclosed word braces) (nested : Nested braces.getLast? rest) :
    Unclosed (word ++ rest) braces := by
  cases unclosed with
  | closed before => exact .closed (before.append nested)
  | opened before inside =>
    rw [append_assoc, cons_append]
    rw [List.getLast?_concat] at nested
    exact .opened before (inside.append nested)

theorem close (unclosed : Unclosed word (braces ++ [brace])) :
    Unclosed (word ++ [.closer brace]) braces := by
  generalize all : braces ++ [brace] = open' at unclosed
  cases unclosed with
  | closed _ => simp at all
  | opened before inside =>
    obtain ⟨rfl, same⟩ := append_inj' all rfl
    cases same
    rw [append_assoc, cons_append]
    exact before.append (.enclosed inside .nil)

section

variable (unclosed : Unclosed word braces)
include unclosed

theorem step {bracket : Bracket}
    (fits : bracket.after? braces = some after) : Unclosed (word ++ [bracket]) after := by
  cases bracket with
  | opener brace =>
    cases fits
    exact .opened unclosed .nil
  | closer brace =>
    obtain ⟨isLast, closed⟩ := Option.ite_none_right_eq_some.mp fits
    obtain ⟨outer, rfl⟩ := List.getLast?_eq_some_iff.mp isLast
    rw [dropLast_concat] at closed
    cases closed
    exact unclosed.close
  | middle =>
    obtain ⟨isLast, same⟩ := Option.ite_none_right_eq_some.mp fits
    cases same
    exact unclosed.append (isLast ▸ .middle .nil)

/-- The unclosed braces are what the brackets leave when they are applied one after another, so a word
has one list of them at most. -/
theorem afterAll? : Bracket.afterAll? word [] = some braces := by
  induction unclosed with
  | closed nested => exact nested.afterAll? rfl
  | opened _ inside ih =>
    simp [Bracket.afterAll?_append, Bracket.afterAll?, ih, Bracket.after?, inside.afterAll?]

theorem unique (other : Unclosed word after) : after = braces :=
  Option.some.inj (other.afterAll?.symm.trans unclosed.afterAll?)

theorem complete : ∃ rest, Nested none (word ++ rest) := by
  induction braces using List.reverseRecOn generalizing word with
  | nil =>
    generalize none : ([] : List Brace) = open' at unclosed
    cases unclosed with
    | closed nested => exact ⟨[], by simpa using nested⟩
    | opened _ _ => simp at none
  | append_singleton braces brace ih =>
    obtain ⟨rest, nested⟩ := ih unclosed.close
    exact ⟨.closer brace :: rest, by simpa using nested⟩

end

end Unclosed

/-! ### Tokens that have been fetched -/

def Token.brackets (tokens : List Token) : List Bracket :=
  tokens.filterMap (·.lexeme.bracket?)

theorem Unclosed.token {tokens : List Token} {token : Token} {braces after : List Brace}
    (unclosed : Unclosed (Token.brackets tokens) braces)
    (turns : token.lexeme.turn? braces = some after) :
    Unclosed (Token.brackets (tokens ++ [token])) after := by
  unfold Token.brackets Lexeme.turn? at *
  rw [filterMap_append]
  split at turns
  next isNone =>
    cases turns
    simpa [isNone] using unclosed
  next bracket isBracket =>
    simpa [isBracket] using unclosed.step turns

/-- `q` is what becomes of a parser `p` by fetching tokens, and by what does not touch the cursor in
between. A slash may be read again as a regular expression; the token behind it is fetched then. -/
inductive Trail (p : Parser) : List Token → Parser → Prop where
  | start : Trail p [] p
  | calm {tokens : List Token} {q r : Parser} (trail : Trail p tokens q) (calm : q.Calm r) :
    Trail p tokens r
  | peek {tokens : List Token} {token : Token} {q r : Parser} (trail : Trail p tokens q)
    (run : Parse.peek q = .ok () r) (looked : r.lookahead = some token) :
    Trail p (tokens ++ [token]) r
  | lex {tokens : List Token} {given : Option Token} {token : Token} {q r : Parser}
    (trail : Trail p tokens q) (run : Parse.lex q = .ok given r) (looked : r.lookahead = some token) :
    Trail p (tokens ++ [token]) r
  | rescan {tokens : List Token} {slash token : Token} {literal : RegExp} {q r : Parser}
    (trail : Trail p tokens q) (seen : q.lookahead = some slash) (isSlash : slash.IsSlash)
    (run : Parse.rescan q = .ok literal r) (looked : r.lookahead = some token) :
    Trail p (tokens ++ [token]) r

/-- The open braces are those that the tokens have left open. -/
structure Parser.Braced (src : Source) (tokens : List Token) (p : Parser) : Prop where
  charted : p.Charted src
  start : ∃ mark, p.start = some mark ∧ mark.index ≤ src.size
  unclosed : ∃ braces, p.cursor.braces = some braces ∧ Unclosed (Token.brackets tokens) braces

theorem Parser.load_braced (p : Parser) (src : Source) (strict : Option Bool) (context : Context) :
    (p.load src 0 strict context []).Braced src [] where
  charted := p.load_charted src strict context []
  start := ⟨_, rfl, Nat.zero_le _⟩
  unclosed := ⟨[], rfl, .closed .nil⟩

variable {src : Source} {p q : Parser} {tokens : List Token} {token : Token}

namespace Parse

theorem braced_of_read {between after : Cursor} {strict : Bool}
    {lineStart : Option Nat} {last : Mark} (source : p.source = some src)
    (exact : p.cursor.toMark.Exact src) (bound : p.cursor.index ≤ src.size)
    (opened : p.cursor.braces = some braces) (unclosed : Unclosed (Token.brackets tokens) braces)
    (layout : Layout.skipAll src { p.cursor with lineBreak := some false } = .ok () between)
    (reads : Lexer.token src strict lineStart between = .ok token after) :
    (p.fetched last between after token).Braced src (tokens ++ [token]) := by
  obtain ⟨reach, -⟩ := (Layout.skipAll_reaches (by exact bound)).of_ok layout
  have opened' : between.braces = some braces := reach.braces.trans opened
  have scanned := (Lexer.token_meets strict lineStart reach.bound opened').of_ok reads
  obtain ⟨_, braces', same, left, turns⟩ := scanned.braces
  cases opened'.symm.trans same
  exact ⟨(charted_of_read source exact bound ⟨braces, opened⟩ last layout reads).1,
    ⟨between.toMark, rfl, reach.bound⟩, braces', left, unclosed.token turns⟩

theorem lex_braced {given : Option Token} (run : lex p = .ok given q)
    (looked : q.lookahead = some token) (source : p.source = some src)
    (exact : p.cursor.toMark.Exact src) (bound : p.cursor.index ≤ src.size)
    (opened : p.cursor.braces = some braces) (unclosed : Unclosed (Token.brackets tokens) braces) :
    q.Braced src (tokens ++ [token]) := by
  obtain ⟨between, after, _, layout, reads, -, rfl⟩ := (lex_ok_iff source).mp run
  cases looked
  exact braced_of_read (p := p.giving) source exact bound opened unclosed layout reads

end Parse

/-- One fetch after another keeps the open braces in step with the tokens. -/
theorem Trail.braced (trail : Trail p tokens q) (begun : p.Braced src []) : q.Braced src tokens := by
  induction trail with
  | start => exact begun
  | calm _ calm ih =>
    refine ⟨ih.charted.calm calm, ?_, ?_⟩
    · rw [calm.start]
      exact ih.start
    · rw [calm.cursor]
      exact ih.unclosed
  | peek _ run looked ih =>
    obtain ⟨braces, opened, unclosed⟩ := ih.unclosed
    obtain ⟨between, after, _, layout, reads, rfl⟩ := (peek_ok_iff ih.charted.source).mp run
    cases looked
    exact braced_of_read ih.charted.source ih.charted.exact ih.charted.bound opened unclosed
      layout reads
  | lex _ run looked ih =>
    obtain ⟨braces, opened, unclosed⟩ := ih.unclosed
    exact lex_braced run looked ih.charted.source ih.charted.exact ih.charted.bound opened unclosed
  | rescan _ seen isSlash run looked ih =>
    obtain ⟨braces, opened, unclosed⟩ := ih.unclosed
    obtain ⟨_, _, lexed, source, exact, bound, same, -⟩ :=
      rescan_lex ih.charted seen isSlash run
    exact lex_braced lexed looked source exact bound (same.trans opened) unclosed

/-! ### Fetches that fail -/

/-- The faults of looking where there is nothing. -/
def Fault.IsIndex : Fault → Prop
  | .pastEnd | .noOpenBrace | .emptyStack => True
  | _ => False

/-- How a fetch may fail that starts with these open braces. -/
def Parse.Halts (src : Source) (braces : List Brace) (fault : Fault) (q : Parser) : Prop :=
  match fault with
  | .noOpenBrace => braces = [] ∧ q.cursor.braces = some [] ∧ src[q.cursor.index]? = some 0x7D
  | .pastEnd => (∀ length, ¬ Sealed src length) ∧ src[q.cursor.index]? ≠ some 0x7D
  | .emptyStack => False
  | _ => True

namespace Parse

variable {braces : List Brace}

theorem located_halts {fault : ScanFault} {c : Cursor} (opened : c.braces = some braces)
    (unread : Unread src c fault q.cursor) : Halts src braces (q.located fault) q := by
  rcases unread with excused | ⟨rfl, here, found, empty⟩
  · cases fault with
    | pastEnd => exact excused
    | illegal | unterminatedRegExp | templateOctal => trivial
    | noOpenBrace | noContext | notNumeric | notString | notRegExp | noNumber | exhausted =>
      exact excused.elim
  · rw [← here] at found empty opened
    exact ⟨Option.some.inj (opened.symm.trans empty), empty, found⟩

theorem Halts.open_eq (halts : Halts src braces .noOpenBrace q) : q.cursor.braces = some braces := by
  rw [halts.1]
  exact halts.2.1

section

variable (bound : p.cursor.index ≤ src.size) (opened : p.cursor.braces = some braces)
include bound opened

variable (source : p.source = some src)
include source

theorem fetch_halts : Meets peek p (fun _ _ => True) (Halts src braces) ∧
    Meets lex p (fun _ _ => True) (Halts src braces) := by
  refine ⟨(peek_iff source).mpr ?_, (lex_iff source).mpr ?_⟩
  all_goals
    refine (skipAll_meets bound).mono (fun _ between skipped => ?_)
      fun _ _ unread => located_halts (by exact opened) unread
    have opened' := skipped.braces.trans opened
    exact (Lexer.token_meets p.isStrict _ skipped.bound opened').mono (fun _ _ _ => trivial)
      fun _ _ unread => located_halts opened' unread

end

/-- Whatever stands at the cursor, a regular expression closes no brace. -/
theorem regExp_misses {c : Cursor} :
    Meets (RegExp.scan src) c (fun _ d => c.Reaches src d) (fun fault _ => fault ≠ .noOpenBrace) := by
  by_cases found : src[c.index]? = some 0x2F
  · refine (RegExp.scan_reaches found).mono (fun _ _ reach => reach.1) fun fault _ excused => ?_
    rintro rfl
    exact excused
  · refine .get_bind (.into (.into (.get_bind ?_)))
    split
    next ch here => exact .ite (fun isSlash => absurd (isSlash ▸ here) found) fun _ => nofun
    next => exact nofun

theorem rescan_misses (source : p.source = some src)
    (start : ∃ mark, p.start = some mark ∧ mark.index ≤ src.size)
    (opened : p.cursor.braces = some braces) :
    Meets rescan p (fun _ _ => True) (fun fault q => fault = .noOpenBrace →
      q.cursor.braces = some braces) := by
  have missed (fault : Fault) (q : Parser) (halts : Halts src braces fault q)
      (isMissing : fault = .noOpenBrace) : q.cursor.braces = some braces :=
    Halts.open_eq (isMissing ▸ halts)
  obtain ⟨mark, start, bound⟩ := start
  refine .into (.of_run (startMark_ok_iff.mpr ⟨start, rfl⟩) ?_)
  refine .modify_bind (.into ((regExp_iff (by exact source)).mpr ((skipAll_meets (by exact bound)).mono ?_
    fun fault _ unread => missed _ _ (located_halts (by exact opened) unread))))
  intro _ between skipped
  refine regExp_misses.mono (fun _ after reach => ?_) ?_
  · have halts := fetch_halts (p := { p with scanning := some true, lookahead := none, cursor := after })
      reach.bound (reach.braces.trans (skipped.braces.trans opened)) source
    exact .into (.into (halts.2.mono (fun _ _ _ => trivial) missed))
  · intro fault _ other
    cases fault with
    | noOpenBrace => exact absurd rfl other
    | _ => nofun

end Parse

/-! ### Runs -/

/-- However much of the tokens is taken, the trail goes that far. -/
def Trail.Covers (p : Parser) (tokens late : List Token) : Prop :=
  ∀ early, early <+: late → ∃ r, Trail p (tokens ++ early) r

theorem Trail.covers (trail : Trail p tokens q) : Covers p tokens [] := by
  intro early isPrefix
  cases prefix_nil.mp isPrefix
  exact ⟨q, by simpa using trail⟩

theorem Trail.Covers.cons {late : List Token} (trail : Trail p tokens q)
    (covers : Covers p (tokens ++ [token]) late) : Covers p tokens (token :: late) := by
  intro early isPrefix
  rcases prefix_cons_iff.mp isPrefix with rfl | ⟨rest, rfl, isPrefix'⟩
  · exact ⟨q, by simpa using trail⟩
  · simpa using covers rest isPrefix'

namespace TokenStream

/-- The trail so far goes on with the lookahead and the tokens after it, and a fetch that fails is the
step after the last of them. -/
theorem rest_trail {rounds : Nat} {before : Parser} (begun : p.Braced src [])
    (begins : Trail p tokens before) (trail : Trail p (tokens ++ [token]) q)
    (looked : q.lookahead = some token) : Trail.Covers p tokens ((rest rounds q).tokens.map Prod.fst) ∧
    ∀ fault, (rest rounds q).fault = some fault → fault.IsIndex →
      ∃ braces, Unclosed (Token.brackets (tokens ++ (rest rounds q).tokens.map Prod.fst)) braces ∧
        Parse.Halts src braces fault (rest rounds q).parser := by
  induction rounds generalizing tokens token q before with
  | zero =>
    refine ⟨begins.covers, fun fault ended isIndex => ?_⟩
    cases ended
    exact isIndex.elim
  | succ rounds ih =>
    unfold rest
    simp only [looked]
    split
    next => exact ⟨.cons begins trail.covers, fun _ ended => nomatch ended⟩
    next =>
      obtain ⟨charted, -, braces, opened, unclosed⟩ := trail.braced begun
      have halts := (fetch_halts charted.bound opened charted.source).2
      cases run : Parse.lex q with
      | error fault r =>
        refine ⟨.cons begins trail.covers, fun _ ended _ => ?_⟩
        cases ended
        exact ⟨braces, unclosed, halts.of_error run⟩
      | ok given r =>
        obtain ⟨between, after, next, layout, reads, -, rfl⟩ :=
          (lex_ok_iff charted.source).mp run
        have met := ih trail (.lex trail run rfl) rfl
        exact ⟨.cons begins met.1, by simpa using met.2⟩

theorem read_trail (begun : p.Braced src []) : Trail.Covers p [] ((read p).tokens.map Prod.fst) ∧
    ∀ fault, (read p).fault = some fault → fault.IsIndex →
      ∃ braces, Unclosed (Token.brackets ((read p).tokens.map Prod.fst)) braces ∧
        Parse.Halts src braces fault (read p).parser := by
  obtain ⟨braces, opened, unclosed⟩ := begun.unclosed
  have source := begun.charted.source
  unfold read
  cases run : Parse.peek p with
  | error fault r =>
    refine ⟨Trail.start.covers, fun _ ended _ => ?_⟩
    cases ended
    exact ⟨braces, unclosed, (fetch_halts begun.charted.bound opened source).1.of_error run⟩
  | ok _ r =>
    obtain ⟨between, after, next, layout, reads, rfl⟩ := (peek_ok_iff source).mp run
    exact rest_trail begun .start (.peek .start run rfl) rfl

end TokenStream

/-- The registers after a fetch. -/
def Fetch.after : Fetch → Parser
  | first after | next _ after | literal _ after => after

def Fetch.fetched (journal : List Fetch) : List Token :=
  journal.filterMap (·.after.lookahead)

/-- The trail goes along a journal, and ends with the registers of each fetch in turn. -/
def Trail.Follows (p : Parser) (tokens : List Token) (journal : List Fetch) : Prop :=
  ∀ early fetch, early ++ [fetch] <+: journal →
    Trail p (tokens ++ Fetch.fetched (early ++ [fetch])) fetch.after

namespace Trail.Follows

theorem nil : Follows p tokens [] := by
  intro early fetch isPrefix
  simp at isPrefix

theorem single {fetch : Fetch} (trail : Trail p (tokens ++ [token]) fetch.after)
    (looked : fetch.after.lookahead = some token) : Follows p tokens [fetch] := by
  intro early fetch' isPrefix
  obtain ⟨rfl, rfl⟩ : early = [] ∧ fetch' = fetch := by
    cases early with
    | nil => simpa using isPrefix
    | cons _ _ => simp at isPrefix
  simpa [Fetch.fetched, looked] using trail

theorem append {journal late : List Fetch} (first : Follows p tokens journal)
    (second : Follows p (tokens ++ Fetch.fetched journal) late) : Follows p tokens (journal ++ late) := by
  intro early fetch isPrefix
  obtain ⟨rest, whole⟩ := isPrefix
  rcases append_eq_append_iff.mp whole with ⟨common, rfl, -⟩ | ⟨common, split, rfl⟩
  · exact first early fetch ⟨common, rfl⟩
  · rcases eq_nil_or_concat common with rfl | ⟨early', fetch', rfl⟩
    · exact first early fetch ⟨[], by simpa using split⟩
    · rw [concat_eq_append, ← append_assoc] at split
      obtain ⟨rfl, same⟩ := append_inj' split rfl
      cases same
      simpa [Fetch.fetched] using second early' fetch ⟨rest, by simp⟩

end Trail.Follows

/-- Where a run fails for want of an open brace, the open braces are still those of the last fetch. -/
theorem Performs.trail {α : Type} {m : ParseM α} {journal : List Fetch}
    (performs : Performs m q journal) (begun : p.Braced src []) (trail : Trail p tokens q) :
    Trail.Follows p tokens journal ∧ Meets m q (fun _ r => Trail p (tokens ++ Fetch.fetched journal) r)
      (fun fault r => fault = .noOpenBrace → ∃ braces, r.cursor.braces = some braces ∧
        Unclosed (Token.brackets (tokens ++ Fetch.fetched journal)) braces) := by
  have here : ∀ {q tokens}, Trail p tokens q → Trail p (tokens ++ Fetch.fetched []) q := by
    intro q tokens trail
    simpa [Fetch.fetched] using trail
  have fetches : ∀ {tokens token} (fetch : Fetch), fetch.after.lookahead = some token →
      Trail p (tokens ++ [token]) fetch.after →
      Trail.Follows p tokens [fetch] ∧ Trail p (tokens ++ Fetch.fetched [fetch]) fetch.after := by
    intro tokens token fetch looked trail
    exact ⟨.single trail looked, by simpa [Fetch.fetched, looked] using trail⟩
  induction performs generalizing tokens with
  | pure a q | get q => exact ⟨.nil, here trail⟩
  | modify calm => exact ⟨.nil, here (trail.calm calm)⟩
  | throw fault q => exact ⟨.nil, fun _ => ((here trail).braced begun).unclosed⟩
  | peek _ run =>
    obtain ⟨_, _, _, _, _, rfl⟩ := (peek_ok_iff (trail.braced begun).charted.source).mp run
    obtain ⟨follows, further⟩ := fetches (.first _) rfl (.peek trail run rfl)
    exact ⟨follows, .of_run run further⟩
  | lex _ run =>
    obtain ⟨_, _, _, _, _, _, rfl⟩ := (lex_ok_iff (trail.braced begun).charted.source).mp run
    obtain ⟨follows, further⟩ := fetches (.next _ _) rfl (.lex trail run rfl)
    exact ⟨follows, .of_run run further⟩
  | rescan seen isSlash run =>
    obtain ⟨_, _, lexed, source, -⟩ :=
      rescan_lex (trail.braced begun).charted seen isSlash run
    obtain ⟨_, _, _, _, _, _, rfl⟩ := (lex_ok_iff source).mp lexed
    obtain ⟨follows, further⟩ := fetches (.literal _ _) rfl (.rescan trail seen isSlash run rfl)
    exact ⟨follows, .of_run run further⟩
  | peekFails run =>
    obtain ⟨charted, -, braces, opened, unclosed⟩ := (here trail).braced begun
    have halts := (fetch_halts charted.bound opened charted.source).1.of_error run
    refine ⟨.nil, .of_fault run fun isMissing => ⟨braces, ?_, unclosed⟩⟩
    exact Parse.Halts.open_eq (isMissing ▸ halts)
  | lexFails run =>
    obtain ⟨charted, -, braces, opened, unclosed⟩ := (here trail).braced begun
    have halts := (fetch_halts charted.bound opened charted.source).2.of_error run
    refine ⟨.nil, .of_fault run fun isMissing => ⟨braces, ?_, unclosed⟩⟩
    exact Parse.Halts.open_eq (isMissing ▸ halts)
  | rescanFails run =>
    obtain ⟨charted, start, braces, opened, unclosed⟩ := (here trail).braced begun
    refine ⟨.nil, .of_fault run fun isMissing => ⟨braces, ?_, unclosed⟩⟩
    exact (rescan_misses charted.source start opened).of_error run isMissing
  | bind run _ _ ih ih' =>
    obtain ⟨first, met⟩ := ih trail
    have further := met.of_ok run
    obtain ⟨second, met'⟩ := ih' further
    refine ⟨first.append second, .into (.of_run run ?_)⟩
    simpa [Fetch.fetched] using met'
  | bindFails run _ ih =>
    obtain ⟨first, met⟩ := ih trail
    have failed := met.of_error run
    exact ⟨first, .into (.of_fault run failed)⟩

/-- A program that is given up for want of an open brace was read up to there. -/
theorem parse_missing {settings : Settings} {code : Text}
    (failed : parse settings code = .error .noOpenBrace) :
    ∃ q, Grammar.deep Grammar.program (Parser.begin { settings } code) = .error .noOpenBrace q := by
  unfold parse Parser.program at failed
  cases run : Grammar.deep Grammar.program (Parser.begin { settings } code) with
  | ok node q => simp [run] at failed
  | error fault q =>
    rw [run] at failed
    cases fault with
    | noOpenBrace => exact ⟨q, rfl⟩
    | _ => cases failed

/-- However far the tokens of a source have been fetched, the open braces in the cursor are the only ones
that their brackets can leave open, and closing them makes the brackets well-nested. A token run is
such a trail, up to each of its tokens, and so is the reading of a program, up to each of its fetches.
A token run ends for want of a character or of an open brace only where nothing is open, unless the
source is not sealed and it ends somewhere else than at a closing brace; a program is given up for
want of an open brace only where nothing is open. -/
theorem brackets_nest :
    (∀ (p : Parser) (src : Source) (strict : Option Bool) (context : Context) (tokens : List Token)
      (q : Parser), Trail (p.load src 0 strict context []) tokens q →
        (∃ braces, q.cursor.braces = some braces ∧
          ∀ unclosed, Unclosed (Token.brackets tokens) unclosed ↔ unclosed = braces) ∧
        ∃ rest, Nested none (Token.brackets tokens ++ rest)) ∧
    (∀ (p : Parser) (src : Source) (strict : Option Bool) (context : Context) (run : TokenStream),
      run = TokenStream.read (p.load src 0 strict context []) →
        (∀ tokens, tokens <+: run.tokens.map Prod.fst →
          ∃ q, Trail (p.load src 0 strict context []) tokens q) ∧
        ∀ fault, run.fault = some fault → fault.IsIndex →
          (∃ length, Sealed src length) ∨ src[run.parser.cursor.index]? = some 0x7D →
          Unclosed (Token.brackets (run.tokens.map Prod.fst)) []) ∧
    ∀ (settings : Settings) (code : Text) (journal : List Fetch),
      Performs (Grammar.deep Grammar.program) (Parser.begin { settings } code) journal →
        (∀ early fetch, early ++ [fetch] <+: journal →
          Trail (Parser.begin { settings } code) (Fetch.fetched (early ++ [fetch])) fetch.after) ∧
        (parse settings code = .error .noOpenBrace →
          Unclosed (Token.brackets (Fetch.fetched journal)) []) := by
  refine ⟨?_, ?_, ?_⟩
  · intro p src strict context tokens q trail
    obtain ⟨-, -, braces, opened, unclosed⟩ := trail.braced (p.load_braced src strict context)
    refine ⟨⟨braces, opened, fun other => ⟨unclosed.unique, ?_⟩⟩, unclosed.complete⟩
    rintro rfl
    exact unclosed
  · rintro p src strict context _ rfl
    obtain ⟨covers, stops⟩ := TokenStream.read_trail (p.load_braced src strict context)
    refine ⟨fun tokens isPrefix => by simpa using covers tokens isPrefix, ?_⟩
    intro fault failed isIndex placed
    obtain ⟨braces, unclosed, halts⟩ := stops fault failed isIndex
    cases fault with
    | noOpenBrace =>
      obtain ⟨rfl, -⟩ := halts
      exact unclosed
    | pastEnd =>
      rcases placed with ⟨length, ends⟩ | found
      · exact absurd ends (halts.1 length)
      · exact absurd found halts.2
    | emptyStack => exact halts.elim
    | _ => exact isIndex.elim
  · intro settings code journal performs
    have begun : (Parser.begin { settings } code).Braced _ [] := Parser.load_braced _ _ _ _
    obtain ⟨follows, met⟩ := performs.trail begun .start
    refine ⟨fun early fetch isPrefix => by simpa using follows early fetch isPrefix, fun failed => ?_⟩
    obtain ⟨q, failed'⟩ := parse_missing failed
    obtain ⟨braces, opened, unclosed⟩ := met.of_error failed' rfl
    obtain ⟨-, -, empty⟩ := (Parser.begin_meets _ code).of_error failed'
    cases opened.symm.trans empty
    exact unclosed

/-- A template with two substitutions, the second one of an object, inside a block, and a brace too many. -/
theorem brackets_nest_template :
    let p := Parser.load {}
      (Source.ofText (Text.ofString "\x7b`$\x7ba\x7db$\x7b\x7b\x7d\x7dc`\x7d\x7d")) 0 (some false) {} []
    let run := TokenStream.read p
    run.fault = some .noOpenBrace ∧
    Token.brackets (run.tokens.map Prod.fst) = [.opener .block, .opener .substitution, .middle,
      .opener .block, .closer .block, .closer .substitution, .closer .block] ∧
    Unclosed (Token.brackets (run.tokens.map Prod.fst)) [] ∧
    ∃ q, Trail p (run.tokens.map Prod.fst) q ∧ ∃ braces, q.cursor.braces = some braces ∧
      ∀ unclosed, Unclosed (Token.brackets (run.tokens.map Prod.fst)) unclosed ↔ unclosed = braces := by
  intro p run
  have failed : run.fault = some .noOpenBrace := by decide +kernel
  have placed : (Source.ofText (Text.ofString "\x7b`$\x7ba\x7db$\x7b\x7b\x7d\x7dc`\x7d\x7d"))[run.parser.cursor.index]? =
      some 0x7D := by decide +kernel
  obtain ⟨covers, stops⟩ := brackets_nest.2.1 {} _ (some false) {} run rfl
  obtain ⟨q, trail⟩ := covers _ (prefix_refl _)
  exact ⟨failed, by decide +kernel, stops _ failed trivial (.inr placed), q, trail,
    (brackets_nest.1 _ _ _ _ _ _ trail).1⟩

end EcmaScript
