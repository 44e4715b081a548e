import EcmaScript.Proofs.Coupling
import EcmaScript.Proofs.FormedStatements

/-!
The switch for imports. The word `pyimport` is a keyword whatever the settings are, and only where a
statement starts with it do they matter: with the switch off, the word is refused like any other that no
statement starts with, and with the switch on, an import is read and stays in the tree. So two runs under
different settings go side by side, until the left one has an import in hand that its tree will not lose.
-/

namespace EcmaScript

open Parse Grammar

variable {src : Source} {on apart : Bool} {p q p' q' : Parser} {hands : List Node} {reader : Reader}

/-! ### Two parsers side by side -/

/-- Parsers at the same place of a source. The left one reads imports where it is `on`, and of the
settings of the right one nothing is said. -/
structure Parser.Beside (src : Source) (on : Bool) (p q : Parser) : Prop
    extends p.Concurs q, p.Abreast q where
  loaded : p.source = some src
  opened : p.context.isSome
  lookahead : q.lookahead.map Token.unnoted = p.lookahead.map Token.unnoted
  switched : p.settings.pyimport = on

namespace Parser.Beside

section

variable (beside : p.Beside src on q)
include beside

theorem changed (unmoved : p.Unmoved p') (unmoved' : q.Unmoved q')
    (concurs : p'.Concurs q') : p'.Beside src on q' :=
  { concurs with
    source := unmoved'.source.trans (beside.source.trans unmoved.source.symm)
    cursor := unmoved'.cursor.trans (beside.cursor.trans unmoved.cursor.symm)
    start := unmoved'.start.trans (beside.start.trans unmoved.start.symm)
    last := unmoved'.last.trans (beside.last.trans unmoved.last.symm)
    loaded := unmoved.source.trans beside.loaded
    opened := unmoved.context ▸ beside.opened
    lookahead := unmoved'.lookahead.trans (beside.lookahead.trans unmoved.lookahead.symm)
    switched := unmoved.settings ▸ beside.switched }

theorem fetched (last : Mark) (between after : Cursor) (token : Token) :
    (p.fetched last between after token).Beside src on (q.fetched last between after token) :=
  { beside with cursor := rfl, start := rfl, last := rfl, lookahead := rfl }

theorem isStrict : q.isStrict = p.isStrict :=
  congrArg (fun strict => decide (strict = some true)) beside.strict.symm

/-- The scanner knows nothing of the settings. -/
theorem lex {given : Option Token} (run : lex p = .ok given p') :
    ∃ q', Parse.lex q = .ok q.lookahead q' ∧ p'.Beside src on q' := by
  obtain ⟨between, after, token, layout, reads, -, rfl⟩ := (lex_ok_iff beside.loaded).mp run
  have given : p.giving.Beside src on q.giving := { beside with }
  rw [← beside.cursor] at layout ⊢
  rw [← beside.isStrict] at reads
  refine ⟨_, (lex_ok_iff (beside.source.trans beside.loaded)).mpr
    ⟨between, after, token, layout, reads, rfl, rfl⟩, given.fetched _ between after token⟩

theorem peek (run : peek p = .ok () p') : ∃ q', Parse.peek q = .ok () q' ∧ p'.Beside src on q' := by
  obtain ⟨between, after, token, layout, reads, rfl⟩ := (peek_ok_iff beside.loaded).mp run
  rw [← beside.cursor] at layout
  rw [← beside.isStrict] at reads
  exact ⟨_, (peek_ok_iff (beside.source.trans beside.loaded)).mpr
    ⟨between, after, token, layout, reads, rfl⟩, beside.fetched _ between after token⟩

theorem rescan {r : RegExp} (run : rescan p = .ok r p') :
    ∃ q', Parse.rescan q = .ok r q' ∧ p'.Beside src on q' := by
  obtain ⟨mark, between, after, given, start, layout, scanned, lexed⟩ := (rescan_ok_iff beside.loaded).mp run
  have behind : Parser.Beside src on { p with scanning := some true, lookahead := none, cursor := after }
      { q with scanning := some true, lookahead := none, cursor := after } :=
    { beside with cursor := rfl, lookahead := rfl }
  obtain ⟨q', lexed', beside'⟩ := behind.lex lexed
  rw [← beside.cursor] at layout
  exact ⟨q', (rescan_ok_iff (beside.source.trans beside.loaded)).mpr
    ⟨mark, between, after, _, beside.start.trans start, layout, scanned, lexed'⟩, beside'⟩

end

end Parser.Beside

/-! ### Imports -/

theorem statement_import (looks : p.Looks (.keyword .pyimport)) (present : p.context.isSome) :
    Meets (statement reader) p (fun _ _ => False) anyFault := by
  have leaf : Leaf reader (fun p => p.Looks (.keyword .pyimport) ∧ p.context.isSome)
      (fun _ _ => False) anyFault := .of_keyword reader (by decide) (by decide)
  refine looks.lookahead_bind fun token _ isWord => ?_
  simp only [isWord]
  refine .modify_bind ?_
  have still : p.Still { p with assignmentTarget := some true, bindingElement := some true } :=
    ⟨rfl, rfl, rfl, rfl, id, id⟩
  have here := leaf.before_still ⟨looks, present⟩ still
  exact (leaf.expression here).bind fun _ _ impossible => impossible.1.elim

theorem importItem_eq (reader : Reader) (p : Parser) : importItem reader p =
    (if p.settings.pyimport then imported else statement reader) p := by
  show (if p.settings.pyimport then pyimportStatement else statement reader) p = _
  split
  next on =>
    show (if p.settings.pyimport then imported else unsupported _) p = _
    rw [if_pos on]
  next => rfl

theorem imported_imports (p : Parser) : Meets imported p (fun node _ => node.Imports) anyFault := by
  refine .past fun _ _ => .past fun module _ => .past fun _ _ => ?_
  exact ⟨[], module, .here _⟩

/-! ### The coupling -/

/-- Runs under different settings. The left one goes on alone where it has an import in hand. -/
def switching (src : Source) (on : Bool) : Coupling where
  token t u := u.unnoted = t.unnoted
  pair := Parser.Beside src on
  missed hands _ := on = true ∧ ∃ node ∈ hands, node.Imports
  refl _ := rfl
  lexeme := congrArg Token.lexeme
  raw := congrArg Token.raw
  concurs := Parser.Beside.toConcurs
  lookahead beside looked := by
    have same := beside.lookahead
    rw [looked] at same
    exact Option.map_eq_some_iff.mp same
  changed := Parser.Beside.changed
  entered _ beside := { beside with context := rfl, opened := rfl }
  stricter _ beside := { beside with strict := rfl }
  relocated beside := { beside with last := beside.start }
  fetches _ beside given p' run := by
    obtain ⟨q', lexed, beside'⟩ := beside.lex run
    refine .inr ?_
    unfold Meets
    rwa [lexed]
  rescans _ beside _ _ r p' run := by
    obtain ⟨q', lexed, beside'⟩ := beside.rescan run
    refine .inr ?_
    unfold Meets
    rw [lexed]
    exact ⟨⟨rfl, rfl, rfl⟩, beside'⟩
  missed_recalled kept missed := ⟨missed.1, kept missed.2⟩
  missed_quiet missed _ := missed
  missed_relocated missed := missed
  missed_fetch missed := Meets.any.imp fun _ _ _ => missed
  missed_rescan missed _ _ := Meets.any.imp fun _ _ _ => missed

theorem switching_alone (src : Source) (on : Bool) : (switching src on).comparison.Alone where
  same := by
    intro _ base apart p q holds
    cases apart with
    | true => exact ⟨⟨rfl, rfl, rfl, rfl⟩, holds.2⟩
    | false =>
      intro _ _ run
      cases run
      exact .inr ⟨holds.toAbreast, holds⟩
  token {t u} same := by
    have same : u.unnoted = t.unnoted := same
    exact ⟨show u.unnoted.start = t.unnoted.start by rw [same],
      show u.unnoted.stop = t.unnoted.stop by rw [same]⟩

/-- At the word itself, the left side refuses or has an import in hand. -/
theorem switching_switched (src : Source) (on : Bool) : (switching src on).comparison.Switched := by
  intro situation hands apart p q t reader reader' answers holds looked isWord imports states
  show (switching src on).At _ _ _ _ apart p q
  cases apart with
  | true =>
    obtain rfl : q = p := holds.1
    have either : (switching src on).comparison.Upholds situation
        (if q.settings.pyimport then imported else statement reader)
        (if q.settings.pyimport then imported else statement reader') answers := .ite imports states
    exact Coupling.at_congr (importItem_eq reader q) (fun _ => importItem_eq reader' q) (either.at_base holds)
  | false =>
    have beside : p.Beside src on q := holds
    refine Coupling.at_congr (importItem_eq reader p) (fun _ => importItem_eq reader' q) ?_
    rw [beside.switched]
    cases on with
    | false => exact Coupling.never (statement_import ⟨t, looked, isWord⟩ beside.opened)
    | true =>
      intro node p' run
      have isImport := (imported_imports p).of_ok run
      have holds' : (switching src true).comparison.Holds situation [node] true p p :=
        ⟨rfl, rfl, node, by simp, isImport⟩
      have known := Meets.of_ok run (imports.at_base holds')
      exact .inl ⟨known.1, rfl, node, by simp, isImport⟩

/-- All rules read the same under both settings. -/
def switched (src : Source) (on : Bool) : Discipline where
  toComparison := (switching src on).comparison
  places := (switching_alone src on).places (switching_switched src on)
  scopes := (switching src on).lax.scopes

/-! ### Programs -/

variable {settings settings' : Settings} {code : Text} {node : Node}

/-- Without imports, the settings do not matter. -/
theorem parse_resettled (parsed : parse settings code = .ok node)
    (free : settings.pyimport = true → ¬node.Imports) : parse settings' code = .ok node := by
  obtain ⟨p, q, body, peeked, script, rfl⟩ := parse_ok parsed
  have begun : (Parser.begin { settings } code).Beside (Parser.sourceOf code) settings.pyimport
      (Parser.begin { settings := settings' } code) :=
    { strict := rfl, context := rfl, bindingElement := rfl, assignmentTarget := rfl, covered := rfl
      source := rfl, cursor := rfl, start := rfl, last := rfl
      loaded := rfl, opened := rfl, lookahead := rfl, switched := rfl }
  obtain ⟨p', peeked', beside⟩ := begun.peek peeked
  have reads (depth : Nat) := Discipline.scriptBody_upholds
    (d := switched (Parser.sourceOf code) settings.pyimport) (s := { context := {}, loose := true })
    rfl (Discipline.readerOf_trusts depth depth) [] false p p' beside
  have goes := (reads _ body q script).resolve_left fun ⟨_, on, part, member, imports⟩ =>
    free on (imports.of_part (by simpa [Node.parts] using member))
  have scripts : Meets peek (Parser.begin { settings := settings' } code)
      (fun _ q => Meets (scriptBody (readerFor code)) q (fun found _ => found = body)
        (only .exhausted)) (only .exhausted) := by
    unfold Meets
    rw [peeked']
    exact goes.imp fun _ _ met => met.1.1.symm
  obtain ⟨body', parsed', rfl⟩ := parse_of_meets scripts
  exact parsed'

theorem parse_free (parsed : parse settings code = .ok node) (off : settings.pyimport = false) :
    ¬node.Imports := by
  rintro ⟨frames, module, occurs⟩
  obtain ⟨c, k, formed⟩ := (parse_formed parsed).occurs occurs
  cases formed with
  | pyimportStatement name allowed => cases off.symm.trans allowed

/-- The switch for imports is conservative: what is read with the switch off is what is read with the
switch on into a tree without imports. -/
theorem parse_without_imports_iff (settings : Settings) (code : Text) (node : Node) :
    parse { settings with pyimport := false } code = .ok node ↔
      parse { settings with pyimport := true } code = .ok node ∧ ¬node.Imports := by
  constructor
  · exact fun parsed => ⟨parse_resettled parsed nofun, parse_free parsed rfl⟩
  · exact fun ⟨parsed, free⟩ => parse_resettled parsed fun _ => free

theorem import_parsed : (match parse { pyimport := true } (Text.ofString "pyimport a") with
    | .ok (.program (.pyimportStatement _ :: _)) => true
    | _ => false) = true := by decide +kernel

/-- A program with an import is read with the switch on only, and one without is read either way. -/
theorem parse_without_imports_iff_statement :
    (∃ node, parse { pyimport := true } (Text.ofString "pyimport a") = .ok node ∧ node.Imports ∧
      parse { pyimport := false } (Text.ofString "pyimport a") ≠ .ok node) ∧
    ∃ node, parse { pyimport := false } (Text.ofString "a") = .ok node ∧
      parse { pyimport := true } (Text.ofString "a") = .ok node ∧ ¬node.Imports := by
  constructor
  · have shape := import_parsed
    split at shape
    case h_2 => cases shape
    next module rest parsed =>
      have imports : (Node.program (.pyimportStatement module :: rest)).Imports :=
        ⟨_, module, .of_descend [0] rfl⟩
      refine ⟨_, parsed, imports, fun refused => ?_⟩
      exact ((parse_without_imports_iff {} _ _).mp refused).2 imports
  · obtain ⟨node, parsed⟩ := parse_returns { pyimport := false } (Text.ofString "a") (by decide +kernel)
    exact ⟨node, parsed, (parse_without_imports_iff {} _ _).mp parsed⟩

end EcmaScript
