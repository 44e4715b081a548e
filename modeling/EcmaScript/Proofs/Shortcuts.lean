import EcmaScript.Proofs.Pairing
import EcmaScript.Proofs.Positions
import EcmaScript.Proofs.Restoration

/-!
Shortcuts of jump statements. Right after its keyword, `return` looks for a blank and the start of an
identifier, and `break` looks for a semicolon. Where they find them they do without the tests that
come otherwise. These tests would have come out in the same way: a blank in front of a name is all the
layout there is, so that no line ends before the argument, and a semicolon that follows the keyword is
the next token. The statements without their shortcuts are the same computations, wherever the reading
of a program comes past one of the two keywords. The shortcut of `continue` looks at the next token
instead, wherever it stands, so that `continue` takes a semicolon of the next line, which `break` leaves.
-/

namespace EcmaScript

open Character Source

variable {α β : Type}

/-! ### Runs that look at registers -/

theorem bind_congr_ok {ε σ : Type} {m : EStateM ε σ α} {f g : α → EStateM ε σ β} {s : σ}
    (same : ∀ a t, m s = .ok a t → f a t = g a t) : (m >>= f) s = (m >>= g) s := by
  simp only [bind, EStateM.bind]
  cases run : m s with
  | ok a t => exact same a t run
  | error e t => rfl

section

variable {src : Source} {p q : Parser} {t u : Token}

/-- The token `t` of the source is the lookahead, and its start is known. -/
structure Parser.Sees (src : Source) (p : Parser) (t : Token) : Prop where
  source : p.source = some src
  lookahead : p.lookahead = some t
  start_eq : p.start.map (·.index) = some t.start

theorem Coherent.sees (coherent : Coherent src p t) : p.Sees src t :=
  ⟨coherent.source, coherent.lookahead, coherent.start_eq⟩

namespace Parser.Sees

variable (sees : p.Sees src t)
include sees

theorem source_eq : Parse.source p = .ok src p :=
  Parse.source_eq sees.source

theorem lookahead_eq : Parse.lookahead p = .ok t p := by
  rw [Parse.lookahead, get_bind, sees.lookahead]
  rfl

theorem startMark_eq : ∃ mark : Mark, mark.index = t.start ∧ Parse.startMark p = .ok mark p := by
  obtain ⟨mark, start, index⟩ := Option.map_eq_some_iff.mp sees.start_eq
  exact ⟨mark, index, Parse.startMark_ok_iff.mpr ⟨start, rfl⟩⟩

theorem characterAt_eq {i : Nat} {ch : CodePoint}
    (found : src[i]? = some ch) : Parse.characterAt i p = .ok ch p := by
  rw [Parse.characterAt, bind_of_ok sees.source_eq]
  simp only [found]
  rfl

end Parser.Sees

theorem Coherent.inside_eq (coherent : Coherent src p t) :
    Parse.inside p = .ok (decide (t.lexeme ≠ .endOfSource)) p := by
  obtain ⟨mark, index, start⟩ := coherent.sees.startMark_eq
  rw [Parse.inside, bind_of_ok coherent.sees.source_eq, bind_of_ok start, index]
  have same : t.start < src.size ↔ t.lexeme ≠ .endOfSource :=
    coherent.place_eq ▸ coherent.place_lt_size_iff
  simp only [same]
  rfl

theorem Parse.lastMark_eq {mark : Mark} (last : p.last = some mark) : lastMark p = .ok mark p := by
  rw [lastMark, get_bind, last]
  rfl

theorem Parse.afterLineBreak_eq : afterLineBreak p = .ok (decide (p.cursor.lineBreak = some true)) p :=
  rfl

/-! ### Behind a keyword -/

/-- The state right behind a keyword, which ends at `stop`, in front of the token `u`. -/
structure Behind (src : Source) (stop : Nat) (q : Parser) (u : Token) : Prop where
  sees : q.Sees src u
  last : ∃ mark : Mark, q.last = some mark ∧ mark.index = stop
  room : stop + 1 < src.size
  inside : u.start < src.size
  fetched : ∃ (c between after : Cursor) (strict : Bool) (lineStart : Option Nat), c.index = stop ∧
    Layout.skipAll src c = .ok () between ∧ Lexer.token src strict lineStart between = .ok u after ∧
    q.cursor = after ∧ u.start = between.index

/-- One fetch leads behind a token that ends before the sentinel. -/
theorem Behind.of_lex {length : Nat} {given : Option Token} (ends : Sealed src length)
    (source : p.source = some src) (braces : ∃ braces, p.cursor.braces = some braces)
    (early : p.cursor.index ≤ length) (run : Parse.lex p = .ok given q) :
    ∃ u, Behind src p.cursor.index q u := by
  obtain ⟨between, after, u, layout, reads, -, rfl⟩ := (Parse.lex_ok_iff source).mp run
  obtain ⟨braces, opened⟩ := braces
  have size := ends.size_eq
  have bound : p.cursor.index ≤ src.size := by omega
  have skipped := (Parse.skipAll_meets bound).of_ok layout
  have scanned := (Lexer.token_meets _ _ skipped.bound (skipped.braces.trans opened)).of_ok reads
  have inside := skipped.inside length ends early
  exact ⟨u, ⟨source, rfl, congrArg some scanned.start.symm⟩, ⟨_, rfl, rfl⟩, by omega,
    scanned.start ▸ inside, _, between, after, _, _, rfl, layout, reads, rfl, scanned.start⟩

theorem Parse.expectKeyword_ok_iff {word : Keyword} : expectKeyword word p = .ok () q ↔
    ∃ token, lex p = .ok (some token) q ∧ token.lexeme = .keyword word := by
  constructor
  · intro run
    obtain ⟨token, r, taken, run⟩ := bind_ok_iff.mp run
    obtain ⟨given, r', begun, taken⟩ := bind_ok_iff.mp taken
    cases given with
    | none => cases taken
    | some given =>
      cases taken
      split at run
      next isWord =>
        cases run
        exact ⟨token, begun, isWord⟩
      next => cases run
  · rintro ⟨token, begun, isWord⟩
    refine bind_ok_iff.mpr ⟨token, q, bind_ok_iff.mpr ⟨some token, q, begun, rfl⟩, ?_⟩
    rw [if_pos isWord]
    rfl

theorem Coherent.behind {length : Nat} (ends : Sealed src length) (coherent : Coherent src p t)
    {word : Keyword} (run : Parse.expectKeyword word p = .ok () q) : ∃ stop u, Behind src stop q u := by
  obtain ⟨token, begun, isWord⟩ := Parse.expectKeyword_ok_iff.mp run
  obtain ⟨-, -, -, -, -, given, -⟩ := (Parse.lex_ok_iff coherent.source).mp begun
  obtain rfl : token = t := Option.some.inj (given.trans coherent.lookahead)
  have early := coherent.keyword word isWord length ends
  exact ⟨_, Behind.of_lex ends coherent.source coherent.braces (coherent.stop_eq ▸ early) begun⟩

/-- The state after each keyword of a program. -/
theorem Performs.behind {m : ParseM α} {code : Text} {journal : List Fetch} {given : Token} {word : Keyword}
    (performs : Performs m (p.begin code) journal) (listed : Fetch.next given q ∈ journal)
    (isWord : given.lexeme = .keyword word) :
    ∃ r stop u, Parse.expectKeyword word r = .ok () q ∧ Behind (Parser.sourceOf code) stop q u := by
  obtain ⟨-, r, charted, looked, run⟩ := (performs.positioned (p.begin_charted code)).1 _ listed
  obtain ⟨-, -, -, -, -, -, early⟩ := charted.lookahead given looked
  obtain ⟨u, behind⟩ := Behind.of_lex (.ofText code) charted.source charted.braces
    (early word isWord _ (.ofText code)) run
  exact ⟨r, _, u, Parse.expectKeyword_ok_iff.mpr ⟨given, run, isWord⟩, behind⟩

namespace Behind

variable {stop : Nat} {ch : CodePoint}

theorem read (behind : Behind src stop q u) {gap : Text} (small : gap = [] ∨ gap = [0x20])
    {text : Text} (found : src.ahead stop = gap ++ text)
    (solid : ∀ fresh, Layout.Solid src fresh (stop + gap.length)) :
    ∃ (between : Cursor) (strict : Bool) (lineStart : Option Nat),
      between.index = stop + gap.length ∧ between.lineBreak = some false ∧
      u.start = between.index ∧ Lexer.token src strict lineStart between = .ok u q.cursor := by
  obtain ⟨c, between, after, strict, lineStart, rfl, layout, reads, rfl, start⟩ := behind.fetched
  have skips : Meets (Layout.skipAll src) c (fun _ d => d =
      { c with index := c.index + gap.length, lineBreak := some false }) anyFault :=
    Layout.skipAll_gap small found (solid _) rfl
  obtain rfl := skips.of_ok layout
  exact ⟨_, strict, lineStart, rfl, rfl, start, reads⟩

theorem plain_of_start (strict : Bool) (lineStart : Option Nat) {c : Cursor}
    (found : src[c.index]? = some ch) (starts : isIdentifierStart ch = true) :
    Meets (Lexer.token src strict lineStart) c (fun u _ => u.lexeme.IsPlain) anyFault := by
  refine Lexer.token_of_start found starts
    ((Lexer.nameToken_decides strict found starts).mono ?_ fun _ _ _ => trivial)
  rintro _ d ⟨parts, -, -, -, -, rfl⟩
  exact Lexer.named_plain strict (Lexeme.ofName_plain _)

theorem name (behind : Behind src stop q u) (blank : src[stop]? = some 0x20)
    (found : src[stop + 1]? = some ch) (starts : isIdentifierStart ch = true) :
    u.lexeme.IsPlain ∧ q.cursor.lineBreak = some false := by
  obtain ⟨first, rest, ahead⟩ := exists_ahead (Array.getElem?_eq_some_iff.mp blank).1
  obtain rfl : first = 0x20 := Option.some.inj ((getElem?_head ahead).symm.trans blank)
  obtain ⟨second, rest', ahead'⟩ := exists_ahead (Array.getElem?_eq_some_iff.mp found).1
  obtain rfl : second = ch := Option.some.inj ((getElem?_head ahead').symm.trans found)
  obtain ⟨between, strict, lineStart, index, unbroken, -, reads⟩ :=
    behind.read (.inr rfl) ahead fun fresh => .of_start ahead' starts
  have tracked := (Lexer.token_tracked strict lineStart).of_ok reads
  have plain := (plain_of_start strict lineStart (index ▸ found) starts).of_ok reads
  exact ⟨plain, tracked.lineBreak.trans unbroken⟩

theorem semicolon (behind : Behind src stop q u) (found : src[stop]? = some 0x3B) :
    u.lexeme = .punctuator .semicolon ∧ src[u.start]? = some 0x3B ∧ q.cursor.lineBreak = some false := by
  obtain ⟨first, rest, ahead⟩ := exists_ahead (Array.getElem?_eq_some_iff.mp found).1
  obtain ⟨between, strict, lineStart, index, unbroken, start, reads⟩ :=
    behind.read (.inl rfl) ahead fun fresh => .of_semicolon found
  have tracked := (Lexer.token_tracked strict lineStart).of_ok reads
  have isMark := (Lexer.token_of_semicolon strict lineStart (index ▸ found)).of_ok reads
  exact ⟨isMark.1, by rw [start, index]; exact found, tracked.lineBreak.trans unbroken⟩

end Behind

end

/-! ### What is given away -/

section

variable {p : Parser} (known : Option Token → Prop) (holds : known p.lookahead)
include holds

namespace Parse

theorem scan_knows (scanner : Source → ScanM α) :
    Meets (scan scanner) p (fun _ q => known q.lookahead) (fun _ q => known q.lookahead) := by
  cases source : p.source with
  | none =>
    refine .into (.get_bind ?_)
    rw [source]
    exact holds
  | some src =>
    refine (scan_iff source).mpr ?_
    unfold Meets
    split <;> exact holds

/-- A fetch that fails keeps the lookahead. -/
theorem fetch_fails : Meets lex p (fun _ _ => True) (fun _ q => known q.lookahead) ∧
    Meets peek p (fun _ _ => True) (fun _ q => known q.lookahead) := by
  constructor
  all_goals
    refine Meets.bind (m := skipLayout) (scan_knows known (by exact holds) _) fun _ _ holds => ?_
    refine .into (.modify_bind (Meets.bind (m := advance) (scan_knows known ?_ _) fun _ _ _ => trivial))
    exact holds

/-- A literal that fails to be read may lose it. -/
theorem rescan_fails (lost : known none) :
    Meets rescan p (fun _ _ => True) (fun _ q => known q.lookahead) := by
  refine .into (.get_bind ?_)
  cases p.start with
  | none => exact holds
  | some mark =>
    have reads : Meets regExp { p with cursor := { p.cursor with index := mark.index } }
        (fun _ q => known q.lookahead) (fun _ q => known q.lookahead) :=
      Meets.bind (m := skipLayout) (scan_knows known (by exact lost) _)
        fun _ _ holds => scan_knows known holds _
    refine .modify_bind (reads.bind fun _ q holds => .into ?_)
    exact .bind (fetch_fails known holds).1 fun _ _ _ => trivial

end Parse

end

/-- A word that is next stays next as long as the journal does not list that it is given away. -/
theorem Performs.stays {m : ParseM α} {p : Parser} {journal : List Fetch} {word : Lexeme}
    (performs : Performs m p journal) (plain : word.IsPlain)
    (unlisted : ∀ given after, .next given after ∈ journal → given.lexeme ≠ word) (looks : p.Looks word)
    (begun : p.cursor.index ≠ 0) : Meets m p (fun _ q => q.Looks word ∧ q.cursor = p.cursor)
      (fun _ q => ∀ t ∈ q.lookahead, t.lexeme = word) := by
  let shown (looked : Option Token) : Prop := ∀ t ∈ looked, t.lexeme = word
  have only {p : Parser} (looks : p.Looks word) : shown p.lookahead := by
    intro t looked
    obtain ⟨u, looked', rfl⟩ := looks
    cases looked.symm.trans looked'
    rfl
  induction performs with
  | pure | get => exact ⟨looks, rfl⟩
  | throw => exact only looks
  | modify calm =>
    obtain ⟨t, looked, rfl⟩ := looks
    have noted := calm.lookahead
    rw [looked, Option.map_some] at noted
    obtain ⟨u, looked', same⟩ := Option.map_eq_some_iff.mp noted
    exact ⟨⟨u, looked', congrArg (·.lexeme) same⟩, calm.cursor⟩
  | peek isStart => exact absurd isStart begun
  | lex looked => exact absurd (only looks _ looked) (unlisted _ _ (List.mem_singleton_self _))
  | rescan looked isSlash =>
    rw [← only looks _ looked] at plain
    rcases isSlash with slash | slash <;> simp [slash, Lexeme.IsPlain] at plain
  | peekFails run => exact .of_fault run ((Parse.fetch_fails shown (only looks)).2.of_error run)
  | lexFails run => exact .of_fault run ((Parse.fetch_fails shown (only looks)).1.of_error run)
  | rescanFails run =>
    exact .of_fault run ((Parse.rescan_fails shown (only looks) (by simp [shown])).of_error run)
  | bind run _ _ ih ih' =>
    have first := ih (fun _ _ listed => unlisted _ _ (List.mem_append_left _ listed)) looks begun
    obtain ⟨looks', cursor⟩ := first.of_ok run
    have second := ih' (fun _ _ listed => unlisted _ _ (List.mem_append_right _ listed)) looks'
      (cursor ▸ begun)
    exact .into (.of_run run (second.imp fun _ _ met => ⟨met.1, met.2.trans cursor⟩))
  | bindFails run _ ih => exact .into (.of_fault run ((ih unlisted looks begun).of_error run))

/-- A word at the start of a program that fails is listed, if something else is next by then. -/
theorem Parser.program_lists (p : Parser) (code : Text) {word : Lexeme} (plain : word.IsPlain)
    (begins : Meets Parse.peek (p.begin code)
      (fun _ q => (∃ t ∈ q.lookahead, t.lexeme = word) ∧ q.cursor.index ≠ 0) noFault)
    (ends : Meets (Grammar.deep Grammar.program) (p.begin code) (fun _ _ => False)
      (fun _ q => ∃ t ∈ q.lookahead, t.lexeme ≠ word)) :
    ∃ journal given after, Performs (Grammar.deep Grammar.program) (p.begin code) journal ∧
      .next given after ∈ journal ∧ given.lexeme = word := by
  obtain ⟨_, q, peeked, looks, begun⟩ := begins.exists_ok
  obtain ⟨journal, performs, rests⟩ := p.program_performs code
  obtain ⟨-, rest, late, performs', listed, same⟩ := rests q peeked
  by_contra unlisted
  have stays := performs'.stays plain (fun given after listed' isWord =>
    unlisted ⟨journal, given, after, performs, listed listed', isWord⟩) looks begun
  cases run : rest q with
  | ok a r => exact ends.of_ok (same.symm.trans run)
  | error fault r =>
    obtain ⟨t, looked, other⟩ := ends.of_error (same.symm.trans run)
    exact other (stays.of_error run t looked)

/-! ### Statements without shortcuts -/

namespace Grammar

open Parse

variable {src : Source} {length stop : Nat} {p q : Parser} {t u : Token} {reader : Reader}

def plainReturn (reader : Reader) : ParseM Node := do
  expectKeyword .return_
  if (← context).inFunctionBody then plainArgument reader else complain .illegalReturn []

def plainBreak : ParseM Node := do
  expectKeyword .break_
  let label ← jumpTail (fun c => c.inIteration || c.inSwitch) .illegalBreak false
  pure (.breakStatement label)

theorem nameFollows_eq (behind : Behind src stop q u) : ∃ found, nameFollows q = .ok found q ∧
    (found = true → u.lexeme.IsPlain ∧ q.cursor.lineBreak = some false) := by
  obtain ⟨mark, last, index⟩ := behind.last
  have room := behind.room
  have here : src[stop]? = some src[stop] := Array.getElem?_eq_getElem (by omega)
  have next : src[stop + 1]? = some src[stop + 1] := Array.getElem?_eq_getElem room
  rw [nameFollows, bind_of_ok (lastMark_eq last), index, bind_of_ok (behind.sees.characterAt_eq here)]
  by_cases blank : src[stop] = 0x20
  · rw [if_pos blank, bind_of_ok (behind.sees.characterAt_eq next)]
    exact ⟨_, rfl, fun starts => behind.name (blank ▸ here) next starts⟩
  · rw [if_neg blank]
    exact ⟨false, rfl, nofun⟩

theorem returnStatement_eq_of_behind (run : expectKeyword .return_ p = .ok () q)
    (behind : Behind src stop q u) : returnStatement reader p = plainReturn reader p := by
  rw [returnStatement, plainReturn, bind_of_ok run, bind_of_ok run]
  refine bind_congr_ok fun c r looked => ?_
  obtain ⟨rfl, -⟩ := (context_returns q).of_ok looked
  by_cases inBody : c.inFunctionBody = true
  · rw [if_pos inBody, if_pos inBody]
    obtain ⟨found, follows, known⟩ := nameFollows_eq behind
    rw [bind_of_ok follows]
    cases found with
    | false => rfl
    | true =>
      -- The tests that the shortcut leaves out would fail.
      obtain ⟨plain, unbroken⟩ := known rfl
      have goesOn : ¬(decide (u.lexeme = .punctuator .semicolon) ||
          decide (u.lexeme = .punctuator .closeBrace) || decide (u.lexeme = .endOfSource)) = true := by
        intro stops
        simp only [Bool.or_eq_true, decide_eq_true_eq] at stops
        rcases stops with (isMark | isMark) | isEnd
        · simp [isMark, Lexeme.IsPlain] at plain
        · simp [isMark, Lexeme.IsPlain] at plain
        · simp [isEnd, Lexeme.IsPlain] at plain
      rw [if_pos rfl, plainArgument, bind_of_ok afterLineBreak_eq, if_neg (by simp [unbroken]),
        bind_of_ok behind.sees.lookahead_eq]
      dsimp only
      rw [if_neg goesOn, bind_map_left]
  · rw [if_neg inBody, if_neg inBody]

theorem returnStatement_eq_plain (ends : Sealed src length) (coherent : Coherent src p t) :
    returnStatement reader p = plainReturn reader p := by
  refine bind_congr_ok fun _ q run => ?_
  obtain ⟨stop, u, behind⟩ := coherent.behind ends run
  have same : returnStatement reader p = _ := returnStatement_eq_of_behind run behind
  rwa [returnStatement, plainReturn, bind_of_ok run, bind_of_ok run] at same

theorem jumpTail_of_semicolon (allowed : Context → Bool) (message : Message)
    (sees : q.Sees src u) (isMark : u.lexeme = .punctuator .semicolon)
    (first : src[u.start]? = some 0x3B) (unbroken : q.cursor.lineBreak ≠ some true) :
    jumpTail allowed message true q = jumpTail allowed message false q := by
  obtain ⟨mark, index, start⟩ := sees.startMark_eq
  have unlabelled : jumpLabel? q = .ok none q := by
    rw [jumpLabel?, bind_of_ok sees.lookahead_eq, isMark]
    rfl
  have drops : consumeSemicolon q = drop q := by
    rw [consumeSemicolon, bind_of_ok sees.source_eq, bind_of_ok start, index, if_pos first]
  rw [jumpTail, if_pos rfl, jumpTail, if_neg (by decide), bind_of_ok afterLineBreak_eq,
    if_neg (by simpa using unbroken), bind_of_ok unlabelled]
  simp only [bind, EStateM.bind, drops]

/-- What `break` reads behind its keyword. -/
def breakRest : ParseM (Option Node) := do
  let c ← characterAt (← lastMark).index
  jumpTail (fun c => c.inIteration || c.inSwitch) .illegalBreak (c = 0x3B)

theorem breakStatement_eq_rest :
    breakStatement = (do expectKeyword .break_; let label ← breakRest; pure (.breakStatement label)) := by
  simp only [breakStatement, breakRest, bind_assoc]

theorem breakRest_eq (behind : Behind src stop q u) :
    breakRest q = jumpTail (fun c => c.inIteration || c.inSwitch) .illegalBreak false q := by
  obtain ⟨mark, last, index⟩ := behind.last
  have room := behind.room
  have here : src[stop]? = some src[stop] := Array.getElem?_eq_getElem (by omega)
  rw [breakRest, bind_of_ok (lastMark_eq last), index, bind_of_ok (behind.sees.characterAt_eq here)]
  by_cases found : src[stop] = 0x3B
  · rw [decide_eq_true found]
    obtain ⟨isMark, first, unbroken⟩ := behind.semicolon (found ▸ here)
    exact jumpTail_of_semicolon _ _ behind.sees isMark first (by simp [unbroken])
  · rw [decide_eq_false found]

theorem breakStatement_eq_of_behind (run : expectKeyword .break_ p = .ok () q)
    (behind : Behind src stop q u) : breakStatement p = plainBreak p := by
  rw [breakStatement_eq_rest, plainBreak, bind_of_ok run, bind_of_ok run]
  simp only [bind, EStateM.bind, breakRest_eq behind]

theorem breakStatement_eq_plain (ends : Sealed src length) (coherent : Coherent src p t) :
    breakStatement p = plainBreak p := by
  refine bind_congr_ok fun _ q run => ?_
  obtain ⟨stop, u, behind⟩ := coherent.behind ends run
  have same := breakStatement_eq_of_behind run behind
  rwa [breakStatement, plainBreak, bind_of_ok run, bind_of_ok run] at same

/-- While a program is read, the shortcuts decide nothing: right behind each keyword that has one, the
statement with the shortcut and the one without it have the same answer or fault, in the same state. -/
theorem program_shortcuts_redundant (p : Parser) (code : Text) :
    (∃ journal, Performs (deep program) (p.begin code) journal) ∧
      ∀ journal, Performs (deep program) (p.begin code) journal →
        ∀ given after, Fetch.next given after ∈ journal →
          (given.lexeme = .keyword .return_ → ∃ r, expectKeyword .return_ r = .ok () after ∧
            ∀ reader, returnStatement reader r = plainReturn reader r) ∧
          (given.lexeme = .keyword .break_ → ∃ r, expectKeyword .break_ r = .ok () after ∧
            breakStatement r = plainBreak r) := by
  obtain ⟨journal, performs, -⟩ := p.program_performs code
  refine ⟨⟨journal, performs⟩, fun _ performs given after listed => ?_⟩
  constructor
  · intro isWord
    obtain ⟨r, stop, u, taken, behind⟩ := performs.behind listed isWord
    exact ⟨r, taken, fun _ => returnStatement_eq_of_behind taken behind⟩
  · intro isWord
    obtain ⟨r, stop, u, taken, behind⟩ := performs.behind listed isWord
    exact ⟨r, taken, breakStatement_eq_of_behind taken behind⟩

/-- A `break` that is read with its shortcut, though a program cannot begin with it. -/
theorem program_shortcuts_redundant_break : ∃ journal given after r,
    Performs (deep program) (Parser.begin {} (Text.ofString "break;")) journal ∧
      .next given after ∈ journal ∧ given.lexeme = .keyword .break_ ∧
      expectKeyword .break_ r = .ok () after ∧ breakStatement r = plainBreak r := by
  obtain ⟨journal, given, after, performs, listed, isWord⟩ := Parser.program_lists {}
    (Text.ofString "break;") (show (Lexeme.keyword .break_).IsPlain from trivial) (by decide +kernel) (by decide +kernel)
  obtain ⟨r, taken, same⟩ :=
    ((program_shortcuts_redundant {} _).2 journal performs given after listed).2 isWord
  exact ⟨journal, given, after, r, performs, listed, isWord, taken, same⟩

/-! ### Jumps of two kinds -/

/-- What `continue` reads behind its keyword. -/
def continueRest : ParseM (Option Node) := do
  let c ← characterAt (← startMark).index
  jumpTail (·.inIteration) .illegalContinue (c = 0x3B)

/-- A semicolon is next, and a line ends before it. -/
def Detached (src : Source) (q : Parser) : Prop :=
  q.cursor.lineBreak = some true ∧ ∃ u, q.lookahead = some u ∧ src[u.start]? = some 0x3B

/-- Both jumps read the same, unless there is such a semicolon: `continue` takes it and `break` does not. -/
structure JumpsAlike (src : Source) (q : Parser) : Prop where
  same : ¬Detached src q → continueRest q = breakRest q
  other : Detached src q → breakRest q = .ok none q ∧ continueRest q = (do drop; pure none) q

theorem checkJump_eq {allowed : Context → Bool} {message : Message} {c : Context}
    (known : q.context = some c) (holds : allowed c = true) : checkJump allowed message q = .ok () q := by
  have found : Parse.context q = .ok c q := by
    rw [Parse.context, get_bind, known]
    rfl
  rw [checkJump, bind_of_ok found, if_pos holds]
  rfl

theorem jumpTail_eq {c : Context} (known : q.context = some c) (looped : c.inIteration = true)
    (immediate : Bool) : jumpTail (·.inIteration) .illegalContinue immediate q =
      jumpTail (fun c => c.inIteration || c.inSwitch) .illegalBreak immediate q := by
  have check {r : Parser} (kept : q.Agrees r) : checkJump (·.inIteration) .illegalContinue r =
      checkJump (fun c => c.inIteration || c.inSwitch) .illegalBreak r := by
    have known := kept.context.trans known
    rw [checkJump_eq known looped, checkJump_eq known (by simp [looped])]
  cases immediate with
  | true =>
    refine bind_congr_ok (m := drop) fun _ r run => ?_
    simp only [bind, EStateM.bind, check (drop_keeps.of_ok run)]
  | false =>
    refine bind_congr_ok (m := afterLineBreak) fun broken r run => ?_
    cases run
    split
    · simp only [bind, EStateM.bind, check (.refl q)]
    · refine bind_congr_ok fun label r run => bind_congr_ok fun _ t run' => ?_
      have kept := (Keeps.of_takes Discipline.jumpLabel?_upholds).of_ok run
      have kept' := (Keeps.of_takes Comparison.Idle.maintains).of_ok run'
      cases label with
      | some name => rfl
      | none => simp only [bind, EStateM.bind, check (kept.trans kept')]

theorem continueRest_eq {c : Context} (behind : Behind src stop q u) (known : q.context = some c)
    (looped : c.inIteration = true) : JumpsAlike src q := by
  obtain ⟨mark, index, start⟩ := behind.sees.startMark_eq
  have inside := behind.inside
  have here : src[u.start]? = some src[u.start] := Array.getElem?_eq_getElem inside
  have begins : continueRest q = jumpTail (·.inIteration) .illegalContinue (src[u.start] = 0x3B) q := by
    rw [continueRest, bind_of_ok start, index, bind_of_ok (behind.sees.characterAt_eq here)]
  have ends := (jumpTail_eq known looped false).trans (breakRest_eq behind).symm
  by_cases found : src[u.start] = 0x3B
  · rw [found] at here
    rw [decide_eq_true found] at begins
    by_cases broken : q.cursor.lineBreak = some true
    · refine ⟨absurd ⟨broken, u, behind.sees.lookahead, here⟩, fun _ => ⟨?_, begins.trans ?_⟩⟩
      · rw [← ends, jumpTail, if_neg (by decide), bind_of_ok afterLineBreak_eq,
          if_pos (by simpa using broken), bind_of_ok (checkJump_eq known looped)]
        rfl
      · refine bind_congr_ok fun _ r run => ?_
        rw [bind_of_ok (checkJump_eq ((drop_keeps.of_ok run).context.trans known) looped)]
    · refine ⟨fun _ => begins.trans ?_, fun detached => absurd detached.1 broken⟩
      obtain ⟨_, between, after, strict, lineStart, -, -, reads, -, starts⟩ := behind.fetched
      have isMark := (Lexer.token_of_semicolon strict lineStart (starts ▸ here)).of_ok reads
      exact (jumpTail_of_semicolon _ _ behind.sees isMark.1 here broken).trans ends
  · rw [decide_eq_false found] at begins
    refine ⟨fun _ => begins.trans ends, ?_⟩
    rintro ⟨-, u', looked, isMark⟩
    cases behind.sees.lookahead.symm.trans looked
    exact absurd (Option.some.inj (here.symm.trans isMark)) found

/-- While a program is read, `break` and `continue` in a loop make the same of what follows them, but for a
semicolon behind the end of a line. -/
theorem program_jumps_alike (p : Parser) (code : Text) :
    breakStatement = (do expectKeyword .break_; let label ← breakRest; pure (.breakStatement label)) ∧
    continueStatement =
      (do expectKeyword .continue_; let label ← continueRest; pure (.continueStatement label)) ∧
    (∃ journal, Performs (deep program) (p.begin code) journal) ∧
      ∀ journal, Performs (deep program) (p.begin code) journal →
        ∀ given after c, Fetch.next given after ∈ journal →
          given.lexeme = .keyword .break_ ∨ given.lexeme = .keyword .continue_ →
          after.context = some c → c.inIteration = true →
            JumpsAlike (Parser.sourceOf code) after := by
  obtain ⟨journal, performs, -⟩ := p.program_performs code
  refine ⟨breakStatement_eq_rest, ?_, ⟨journal, performs⟩, ?_⟩
  · simp only [continueStatement, continueRest, bind_assoc]
  · intro _ performs given after c listed isJump known looped
    obtain ⟨word, isWord⟩ : ∃ word, given.lexeme = .keyword word := by
      rcases isJump with isWord | isWord <;> exact ⟨_, isWord⟩
    obtain ⟨_, _, u, -, behind⟩ := performs.behind listed isWord
    exact continueRest_eq behind known looped

end Grammar

end EcmaScript
