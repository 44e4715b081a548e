import EcmaScript.Parser.Lookahead
import EcmaScript.Proofs.Outcome

/-!
How the next token is fetched. A token is given away by skipping the layout behind it and reading the
token that follows; both steps succeed, or nothing is returned. Each way to fetch is known by one
equivalence, which names the cursor between the two steps and all registers afterwards.
-/

namespace EcmaScript

variable {α : Type}

theorem get_bind {ε σ : Type} {f : σ → EStateM ε σ α} {s : σ} : (get >>= f) s = f s s :=
  rfl

theorem bind_of_ok {ε σ β : Type} {m : EStateM ε σ α} {f : α → EStateM ε σ β} {s t : σ} {a : α}
    (run : m s = .ok a t) : (m >>= f) s = f a t := by
  simp only [bind, EStateM.bind, run]

theorem bind_ok_iff {ε σ β : Type} {m : EStateM ε σ α} {f : α → EStateM ε σ β} {s t : σ} {b : β} :
    (m >>= f) s = .ok b t ↔ ∃ a u, m s = .ok a u ∧ f a u = .ok b t := by
  simp only [bind, EStateM.bind]
  cases m s with
  | ok a u =>
    constructor
    · intro run
      exact ⟨a, u, rfl, run⟩
    · rintro ⟨_, _, same, run⟩
      cases same
      exact run
  | error e u => simp

/-- The registers after a token has been read from `between` to `after`. -/
def Parser.fetched (p : Parser) (last : Mark) (between after : Cursor) (token : Token) : Parser :=
  { p with
    scanning := some false
    last := some last
    start := some between.toMark
    cursor := after
    lookahead := some token }

/-- What the fault of a scanner has to satisfy, if the parser is to fail as it may. -/
abbrev Parser.faults (p : Parser) (fails : Fault → Parser → Prop) (fault : ScanFault) (cursor : Cursor) :
    Prop :=
  fails ({ p with cursor }.located fault) { p with cursor }

namespace Parse

variable {src : Source} {p q : Parser} {fails : Fault → Parser → Prop}

section

variable (source : p.source = some src)
include source

theorem source_eq : Parse.source p = .ok src p := by
  rw [Parse.source, get_bind, source]
  rfl

theorem scan_eq {scanner : Source → ScanM α} : scan scanner p = match scanner src p.cursor with
      | .ok a cursor => .ok a { p with cursor }
      | .error fault cursor => .error (Parser.located { p with cursor } fault) { p with cursor } :=
  bind_of_ok (source_eq source)

/-- A scanner run by a parser. -/
theorem scan_iff {scanner : Source → ScanM α} {after : α → Parser → Prop} :
    Meets (scan scanner) p after fails ↔
      Meets (scanner src) p.cursor (fun a cursor => after a { p with cursor }) (p.faults fails) := by
  simp only [Meets, scan_eq source]
  cases scanner src p.cursor <;> rfl

theorem skipLayout_iff {after : Unit → Parser → Prop} : Meets skipLayout p after fails ↔
    Meets (Layout.skipAll src) { p.cursor with lineBreak := some false }
      (fun _ cursor => after () { p with cursor }) (p.faults fails) :=
  scan_iff (p := { p with cursor := { p.cursor with lineBreak := some false } }) source

theorem lex_iff {after : Option Token → Parser → Prop} : Meets lex p after fails ↔
    Meets (Layout.skipAll src) { p.cursor with lineBreak := some false }
      (fun _ between => Meets (Lexer.token src p.isStrict (some between.lineStart)) between
        (fun token cursor => after p.lookahead (p.giving.fetched p.cursor.toMark between cursor token))
        ({ p.giving with
          scanning := some true
          last := some p.cursor.toMark
          start := some between.toMark }.faults fails))
      ({ p.giving with scanning := some true, last := some p.cursor.toMark }.faults fails) := by
  refine (Meets.bind_iff (m := skipLayout)).trans ((skipLayout_iff (by exact source)).trans ?_)
  refine Meets.congr fun _ between => ?_
  exact (Meets.bind_iff (m := advance)).trans (scan_iff (by exact source))

theorem peek_iff {after : Unit → Parser → Prop} : Meets peek p after fails ↔
    Meets (Layout.skipAll src) { p.cursor with lineBreak := some false }
      (fun _ between => Meets (Lexer.token src p.isStrict (some between.lineStart)) between
        (fun token cursor => after () (p.fetched between.toMark between cursor token))
        ({ p with
          scanning := some true
          last := some between.toMark
          start := some between.toMark }.faults fails))
      ({ p with scanning := some true }.faults fails) := by
  refine (Meets.bind_iff (m := skipLayout)).trans ((skipLayout_iff (by exact source)).trans ?_)
  refine Meets.congr fun _ between => ?_
  exact (Meets.bind_iff (m := advance)).trans (scan_iff (by exact source))

theorem regExp_iff {after : RegExp → Parser → Prop} : Meets regExp p after fails ↔
    Meets (Layout.skipAll src) { p.cursor with lineBreak := some false }
      (fun _ between => Meets (RegExp.scan src) between
        (fun r cursor => after r { p with scanning := some true, lookahead := none, cursor })
        ({ p with scanning := some true, lookahead := none }.faults fails))
      ({ p with scanning := some true, lookahead := none }.faults fails) := by
  refine (Meets.bind_iff (m := skipLayout)).trans ((skipLayout_iff (by exact source)).trans ?_)
  exact Meets.congr fun _ between => scan_iff (by exact source)

theorem lex_ok_iff {given : Option Token} : lex p = .ok given q ↔ ∃ between after token,
      Layout.skipAll src { p.cursor with lineBreak := some false } = .ok () between ∧
      Lexer.token src p.isStrict (some between.lineStart) between = .ok token after ∧
      given = p.lookahead ∧ q = p.giving.fetched p.cursor.toMark between after token := by
  refine Meets.ok_iff.trans ((lex_iff source).trans (Meets.exists_iff.trans ⟨?_, ?_⟩))
  · rintro ⟨_, between, layout, read⟩
    obtain ⟨token, after, reads, rfl, rfl⟩ := read.exists_ok
    exact ⟨between, after, token, layout, reads, rfl, rfl⟩
  · rintro ⟨between, after, token, layout, reads, rfl, rfl⟩
    exact ⟨_, between, layout, Meets.exists_iff.mpr ⟨token, after, reads, rfl, rfl⟩⟩

theorem peek_ok_iff : peek p = .ok () q ↔ ∃ between after token,
      Layout.skipAll src { p.cursor with lineBreak := some false } = .ok () between ∧
      Lexer.token src p.isStrict (some between.lineStart) between = .ok token after ∧
      q = p.fetched between.toMark between after token := by
  refine Meets.ok_iff.trans ((peek_iff source).trans (Meets.exists_iff.trans ⟨?_, ?_⟩))
  · rintro ⟨_, between, layout, read⟩
    obtain ⟨token, after, reads, -, rfl⟩ := read.exists_ok
    exact ⟨between, after, token, layout, reads, rfl⟩
  · rintro ⟨between, after, token, layout, reads, rfl⟩
    exact ⟨_, between, layout, Meets.exists_iff.mpr ⟨token, after, reads, rfl, rfl⟩⟩

theorem regExp_ok_iff {r : RegExp} : regExp p = .ok r q ↔ ∃ between after,
      Layout.skipAll src { p.cursor with lineBreak := some false } = .ok () between ∧
      RegExp.scan src between = .ok r after ∧
      q = { p with scanning := some true, lookahead := none, cursor := after } := by
  refine Meets.ok_iff.trans ((regExp_iff source).trans (Meets.exists_iff.trans ⟨?_, ?_⟩))
  · rintro ⟨_, between, layout, read⟩
    obtain ⟨_, after, reads, rfl, rfl⟩ := read.exists_ok
    exact ⟨between, after, layout, reads, rfl⟩
  · rintro ⟨between, after, layout, reads, rfl⟩
    exact ⟨_, between, layout, Meets.exists_iff.mpr ⟨r, after, reads, rfl, rfl⟩⟩

end

/-! ### Runs that answer -/

theorem scan_absent {scanner : Source → ScanM α} {after : α → Parser → Prop} (absent : p.source = none) :
    Meets (scan scanner) p after anyFault := by
  refine .into (.get_bind ?_)
  rw [absent]
  trivial

/-- What is given away is the lookahead, and a token was read behind it. -/
theorem lex_fetches (p : Parser) : Meets lex p (fun given q => given = p.lookahead ∧
    ∃ src between after token, Lexer.token src p.isStrict (some between.lineStart) between = .ok token after ∧
      q = p.giving.fetched p.cursor.toMark between after token) anyFault := by
  cases source : p.source with
  | none => exact .modify_bind (.into (.modify_bind (scan_absent source)))
  | some src =>
    refine (lex_iff source).mpr (.of_returns fun _ between _ => .of_returns fun token after read => ?_)
    exact ⟨rfl, src, between, after, token, read, rfl⟩

theorem peek_fetches (p : Parser) : Meets peek p (fun _ q =>
    ∃ src between after token, Lexer.token src p.isStrict (some between.lineStart) between = .ok token after ∧
      q = p.fetched between.toMark between after token) anyFault := by
  cases source : p.source with
  | none => exact .modify_bind (.into (.modify_bind (scan_absent source)))
  | some src =>
    refine (peek_iff source).mpr (.of_returns fun _ between _ => .of_returns fun token after read => ?_)
    exact ⟨src, between, after, token, read, rfl⟩

theorem regExp_fetches (p : Parser) : Meets regExp p (fun r q =>
    ∃ src between cursor, RegExp.scan src between = .ok r cursor ∧
      q = { p with scanning := some true, lookahead := none, cursor }) anyFault := by
  cases source : p.source with
  | none => exact .modify_bind (.into (.modify_bind (scan_absent source)))
  | some src =>
    refine (regExp_iff source).mpr (.of_returns fun _ between _ => .of_returns fun r cursor read => ?_)
    exact ⟨src, between, cursor, read, by rw [source]⟩

theorem startMark_ok_iff {mark : Mark} : startMark p = .ok mark q ↔ p.start = some mark ∧ p = q := by
  rw [startMark, get_bind]
  cases p.start with
  | some found =>
    constructor
    · intro same
      cases same
      exact ⟨rfl, rfl⟩
    · rintro ⟨same, rfl⟩
      cases same
      rfl
  | none =>
    constructor
    · intro impossible
      cases impossible
    · rintro ⟨impossible, -⟩
      cases impossible

/-- Reads the regular expression that starts with the slash in the lookahead, and the token after
it. -/
def rescan : ParseM RegExp := do
  let mark ← startMark
  modify fun p => { p with cursor := { p.cursor with index := mark.index } }
  let r ← regExp
  drop
  pure r

theorem rescan_ok_iff {r : RegExp} (source : p.source = some src) :
    rescan p = .ok r q ↔ ∃ mark between after given, p.start = some mark ∧
      Layout.skipAll src { p.cursor with index := mark.index, lineBreak := some false } = .ok () between ∧
      RegExp.scan src between = .ok r after ∧
      lex { p with scanning := some true, lookahead := none, cursor := after } = .ok given q := by
  constructor
  · intro run
    obtain ⟨mark, _, started, run⟩ := bind_ok_iff.mp run
    obtain ⟨start, rfl⟩ := startMark_ok_iff.mp started
    obtain ⟨_, _, moved, run⟩ := bind_ok_iff.mp run
    cases moved
    obtain ⟨_, _, read, run⟩ := bind_ok_iff.mp run
    obtain ⟨between, after, layout, scanned, rfl⟩ := (regExp_ok_iff (by exact source)).mp read
    obtain ⟨_, _, dropped, run⟩ := bind_ok_iff.mp run
    cases run
    obtain ⟨given, _, lexed, run⟩ := bind_ok_iff.mp dropped
    cases run
    exact ⟨mark, between, after, given, start, layout, scanned, lexed⟩
  · rintro ⟨mark, between, after, given, start, layout, scanned, lexed⟩
    refine bind_ok_iff.mpr ⟨mark, p, startMark_ok_iff.mpr ⟨start, rfl⟩, bind_ok_iff.mpr ⟨(), _, rfl, ?_⟩⟩
    refine bind_ok_iff.mpr ⟨r, _, (regExp_ok_iff (by exact source)).mpr
      ⟨between, after, layout, scanned, rfl⟩, ?_⟩
    exact bind_ok_iff.mpr ⟨(), q, bind_ok_iff.mpr ⟨given, q, lexed, rfl⟩, rfl⟩

end Parse

end EcmaScript
