import EcmaScript.Proofs.Strictness
import EcmaScript.Proofs.Warrants

/-!
Reserved names in strict code. A word that strict code reserves is a keyword as soon as it is fetched by a
strict parser, so that no tree can use it as a name. Fetches run ahead of the grammar, though: when the
directive at the start of a program is found to be one, the token behind it is in the lookahead already. If
that is a reserved word it is an identifier; a program uses no reserved name but that of this token.
-/

namespace EcmaScript

open Parse Grammar

variable {src : Source} {c : Cursor} {settings : Settings} {code rest : Text} {p q : Parser}

/-! ### Strict fetches -/

/-- The token is no identifier of a reserved name. -/
def Token.Unreserved (token : Token) : Prop :=
  ∀ name, token.lexeme = .identifier name → name.isStrictReserved = false

/-- Strict code has no identifiers of reserved names: those are keywords. -/
theorem Lexer.token_unreserved (lineStart : Option Nat) :
    Meets (Lexer.token src true lineStart) c (fun token _ => token.Unreserved) anyFault := by
  refine (token_identifier true lineStart).imp fun token d known name isName => ?_
  obtain ⟨parts, rest, -, -, rfl⟩ := known name isName
  exact Lexeme.unreserved_of_inStrictCode isName

structure Parser.Strict (src : Source) (p : Parser) : Prop where
  source : p.source = some src
  strict : p.strict = some true

theorem Parse.lex_unreserved (strict : p.Strict src) :
    Meets lex p (fun _ q => q.Strict src ∧ ∀ token, q.lookahead = some token → token.Unreserved) anyFault := by
  apply Meets.of_returns
  intro given q run
  obtain ⟨between, after, token, -, reads, -, rfl⟩ := (lex_ok_iff strict.source).mp run
  have isStrict : p.isStrict = true := decide_eq_true strict.strict
  rw [isStrict] at reads
  refine ⟨⟨strict.source, strict.strict⟩, ?_⟩
  rintro _ ⟨⟩
  exact (Lexer.token_unreserved _).of_ok reads

/-- Behind a regular expression the next token is fetched as always. -/
theorem Parse.rescan_unreserved (strict : p.Strict src) :
    Meets rescan p (fun _ q => q.Strict src ∧ ∀ token, q.lookahead = some token → token.Unreserved)
      anyFault := by
  apply Meets.of_returns
  intro r q run
  obtain ⟨_, _, after, _, -, -, -, lexed⟩ := (rescan_ok_iff strict.source).mp run
  have fetched := (lex_unreserved (by exact ⟨strict.source, strict.strict⟩)).of_ok lexed
  exact fetched

/-! ### The warrant -/

theorem Token.Unreserved.excused {token : Token} {early : Lexeme} (unreserved : token.Unreserved)
    (name : Text) (isName : token.lexeme = .identifier name) (reserved : name.isStrictReserved = true) :
    early = .identifier name :=
  nomatch (unreserved name isName).symm.trans reserved

/-- Strict code over the source uses no reserved names, up to one lexeme that may have been fetched before
the code became strict. -/
def strictWarrant (src : Source) (early : Lexeme) : Warrant where
  token t := ∀ name, t.lexeme = .identifier name → name.isStrictReserved = true → early = .identifier name
  registers p := p.Strict src
  name n := n.isStrictReserved = true → early = .identifier n
  fault := anyFault
  named known isName := known _ isName
  noted _ known := known
  apart calm _ same strict := ⟨calm.source.trans strict.source, same.trans strict.strict⟩
  stricter strict := ⟨strict.source, rfl⟩
  restored before after := ⟨after.source, before.strict⟩
  relocated strict := ⟨strict.source, strict.strict⟩
  lex := by
    intro p held
    apply ((lex_unreserved held.registers).and_returns (lex_quiet.undisturbed p)).imp
    rintro _ q ⟨⟨strict, unreserved⟩, quiet⟩
    have cover : q.coverInitialized = p.coverInitialized := congrArg (·.coverInitialized) quiet.registers
    exact ⟨strict, fun token looked => (unreserved token looked).excused, cover ▸ held.cover⟩
  rescan := by
    intro p token held _ _
    apply ((rescan_unreserved held.registers).and_returns (rescan_quiet.undisturbed p)).imp
    rintro _ q ⟨⟨strict, unreserved⟩, quiet⟩
    have cover : q.coverInitialized = p.coverInitialized := congrArg (·.coverInitialized) quiet.registers
    exact ⟨strict, fun token looked => (unreserved token looked).excused, cover ▸ held.cover⟩
  blames _ _ _ := trivial
  complains _ _ := trivial
  illegal _ _ := trivial
  other _ _ := trivial

/-! ### Scripts -/

/-- A script from the middle of its directives on. -/
theorem Warrant.scriptFrom_takes (w : Warrant) {s : Situation} (loose : s.loose = true)
    {reader reader' : Reader} (trusts : w.discipline.Trusts reader reader') (rounds rounds' : Nat)
    {state state' : List Node × Option Token} (recalls : w.discipline.Recalls state state') :
    w.discipline.Takes s (trees state) (scriptFrom reader refuseOctal rounds (state.1, some state.2))
      (scriptFrom reader' refuseOctal rounds' (state'.1, some state'.2))
      (Comparison.Same fun nodes => ∀ node ∈ nodes, node.Among w.name) := by
  let alike (a b : List Node × Option (Option Token)) : Prop :=
    w.discipline.Recalls (a.1, a.2.join) (b.1, b.2.join) ∧ a.2.isSome = b.2.isSome
  have related : alike (state.1, some state.2) (state'.1, some state'.2) := ⟨recalls, rfl⟩
  refine .iterateVia (fun _ _ same => ⟨rfl, same.2⟩) ?_ rounds rounds' related
  rintro ⟨body, directives⟩ ⟨body', directives'⟩ ⟨recalls, isSome⟩
  match directives, directives', isSome with
  | some octal, some octal', _ =>
    rw [scriptRound_some, scriptRound_some, directiveRound_eq, directiveRound_eq]
    simp only [← bind_pure_comp, bind_assoc]
    refine .bindVia (w.discipline.places.strings trusts) fun found found' same => ?_
    refine (Discipline.directiveAnswer_takes loose recalls same).passVia fun answer answer' found => ?_
    cases found with
    | inl next => exact .give (.inl ⟨next.self, rfl⟩) (.inl ⟨next, rfl⟩) (.of_mem (by simp [trees, afterDirective]))
    | inr ended =>
      obtain ⟨rfl, among⟩ := ended
      have next : w.discipline.Recalls (_, none) (_, none) := ⟨rfl, rfl, among, nofun⟩
      exact .give (.inl ⟨next, rfl⟩) (.inl ⟨next, rfl⟩) (.of_mem (by simp [trees, afterDirective]))
  | none, none, _ =>
    obtain rfl : body = body' := recalls.body
    rw [scriptRound_none, scriptRound_none]
    have item : w.discipline.Takes s (trees body) (itemRound reader body) (itemRound reader' body)
        (Comparison.Same (Sum.elim (fun nodes => ∀ node ∈ nodes, node.Among w.name)
          fun nodes => ∀ node ∈ nodes, node.Among w.name)) := by
      have among : ∀ node ∈ body, node.Among w.name := fun node member => recalls.statement node member {}
      refine .past w.discipline.places.inside fun _ => .ite ?_ (.pure among .refl)
      exact .bind trusts.listItem fun _ last => .pure (forall_mem_concat among last) .refl
    simp only [← bind_pure_comp]
    refine item.pass fun answer among => ?_
    cases answer with
    | inl next =>
      have next : w.discipline.Recalls (next, none) (next, none) :=
        ⟨rfl, rfl, fun node member _ => among node member, nofun⟩
      exact .give (.inl ⟨next, rfl⟩) (.inl ⟨next, rfl⟩) (.of_mem (by simp [trees]))
    | inr nodes => exact .give (.inr ⟨rfl, among⟩) (.inr ⟨rfl, among⟩) .refl

/-! ### The token behind the directive -/

/-- The lexemes of a program, read one after another as code that is not strict. -/
def lexemes (settings : Settings) (code : Text) : List Lexeme :=
  (TokenStream.read (Parser.begin { settings } code)).tokens.map (·.1.lexeme)

/-- What is fetched depends on the source, the cursor and the strictness alone. -/
theorem Parse.lex_same {given : Option Token} {s : Parser} (source : s.source = some src)
    (run : lex s = .ok given q) (source' : p.source = some src) (cursor : p.cursor = s.cursor)
    (strict : p.strict = s.strict) : ∃ r, lex p = .ok p.lookahead r ∧ r.lookahead = q.lookahead := by
  obtain ⟨between, after, token, layout, reads, -, rfl⟩ := (lex_ok_iff source).mp run
  have isStrict : p.isStrict = s.isStrict := congrArg (fun strict => decide (strict = some true)) strict
  rw [← cursor] at layout
  rw [← isStrict] at reads
  exact ⟨_, (lex_ok_iff source').mpr ⟨between, after, token, layout, reads, rfl, rfl⟩, rfl⟩

/-- Behind the string and the semicolon of the directive, the token that the parser has in its lookahead is
the third of the program. -/
theorem Begun.lexeme (directed : (Parser.sourceOf code).Directed 0 rest)
    (peeked : peek (Parser.begin { settings } code) = .ok () p) (begun : Begun settings code q) :
    ∃ token, q.lookahead = some token ∧ (lexemes settings code)[2]? = some token.lexeme := by
  obtain ⟨s, given, r, strict, behind, sloppy, run, rfl⟩ := begun.fetched
  obtain ⟨-, isSome⟩ := (lex_returns s).of_ok run
  obtain ⟨token, looked⟩ := Option.isSome_iff_exists.mp isSome
  refine ⟨token, looked, ?_⟩
  have here := peek_directive directed peeked
  have unbegun := Unbegun.of_peek peeked
  obtain ⟨first, coherent₁, isString, -⟩ := here.string
  obtain ⟨_, p₂, run₂, -, behind₂⟩ := (lex_semicolon directed here).exists_ok
  obtain ⟨second, looked₂, isMark⟩ := behind₂.looks
  have sloppy₂ : p₂.strict = s.strict := by
    rw [(lex_keeps.of_ok run₂).strict, unbegun.strict, sloppy]
  obtain ⟨p₃, run₃, looked₃⟩ :=
    lex_same behind.source run behind₂.source (behind₂.cursor.trans behind.cursor.symm) sloppy₂
  -- There is a round for each of the three tokens, since the source is not empty.
  have inside := Source.lt_size_of_ahead directed.semicolon
  obtain ⟨rounds, enough⟩ : ∃ rounds, (Parser.sourceOf code).size + 2 = rounds + 1 + 1 + 1 :=
    ⟨(Parser.sourceOf code).size - 1, by omega⟩
  have stream : (TokenStream.read (Parser.begin { settings } code)).tokens =
      (TokenStream.rest (rounds + 1 + 1 + 1) p).tokens := by
    rw [← enough, TokenStream.read, peeked]
    rfl
  have third := TokenStream.rest_head? (looked₃.trans looked) rounds
  rw [lexemes, stream, TokenStream.rest_cons coherent₁.lookahead (by simp [isString]) run₂,
    TokenStream.rest_cons looked₂ (by rw [isMark]; rintro ⟨⟩) run₃]
  simp only [List.map_cons, List.getElem?_cons_succ, ← List.head?_eq_getElem?, List.head?_map, third,
    Option.map_some]

/-! ### Programs -/

theorem blank_directed (code : Text) :
    (Parser.sourceOf (Text.ofString "\"use strict\"; " ++ code)).Directed 0
      (0x20 :: (code ++ Parser.sentinel)) := by
  have split : Text.ofString "\"use strict\"; " = useStrict.written ++ [0x3B, 0x20] := by decide
  exact ⟨by simp [Source.ahead, Source.ofText, split], .inr ⟨_, _, rfl, by decide⟩⟩

/-- A reserved name that a program in strict code uses is the name of the token right behind the
directive. That the name is used only once is not said. -/
theorem parse_strictly_unreserved {root : Node} {name : Text}
    (parsed : parse settings (Text.ofString "\"use strict\"; " ++ code) = .ok root) (uses : root.Uses name)
    (reserved : name.isStrictReserved = true) :
    (lexemes settings (Text.ofString "\"use strict\"; " ++ code))[2]? = some (.identifier name) := by
  obtain ⟨p₀, _, _, peeked, -, -⟩ := parse_ok parsed
  obtain ⟨p, q, rounds, body, begun, strict, rfl, script⟩ := parse_directed (blank_directed code) parsed
  obtain ⟨token, looked, third⟩ := begun.lexeme (blank_directed code) peeked
  let w := strictWarrant (Parser.sourceOf (Text.ofString "\"use strict\"; " ++ code)) token.lexeme
  have held : w.Holds p := by
    refine ⟨⟨begun.source, strict⟩, fun other looked' name isName _ => ?_, by simp [begun.settled]⟩
    cases looked.symm.trans looked'
    exact isName
  -- The directive itself uses no name at all.
  have directive : strictDirective.Among w.name :=
    .of_parts rfl (by simpa [strictDirective, Node.usedParts, Node.parts] using Node.among_literal _ _)
  have recalls : w.discipline.Recalls ([strictDirective], none) ([strictDirective], none) :=
    ⟨rfl, rfl, List.forall_mem_singleton.mpr fun _ => directive, by simp⟩
  have reads (depth : Nat) := w.scriptFrom_takes (s := { context := {}, loose := true }) rfl
    (Discipline.readerOf_trusts depth depth) rounds rounds recalls [] false p p ⟨rfl, held⟩
  have all := (reads _).of_ok script
  have among : (Node.program body).Among w.name :=
    .of_parts rfl (by simpa [Node.usedParts, Node.parts] using all.1.2)
  rw [third, among name uses reserved]

theorem reserved_parsed : (match parse {} (Text.ofString "\"use strict\"; " ++ Text.ofString "static = a.let") with
    | .ok (.program [_, .expressionStatement (.assignmentExpression _ (.identifier name) _)]) =>
      decide (name = Text.ofString "static")
    | _ => false) = true := by decide +kernel

/-- The word behind the directive escapes, while the name of a member is free to be reserved. -/
theorem parse_strictly_unreserved_early :
    ∃ root, parse {} (Text.ofString "\"use strict\"; " ++ Text.ofString "static = a.let") = .ok root ∧
      root.Uses (Text.ofString "static") ∧ (Text.ofString "static").isStrictReserved = true ∧
      (lexemes {} (Text.ofString "\"use strict\"; " ++ Text.ofString "static = a.let"))[2]? =
        some (.identifier (Text.ofString "static")) := by
  have shape := reserved_parsed
  split at shape
  case h_2 => cases shape
  next directive operator name value parsed =>
    obtain rfl := of_decide_eq_true shape
    have uses : (Node.program [directive, .expressionStatement
        (.assignmentExpression operator (.identifier (Text.ofString "static")) value)]).Uses
          (Text.ofString "static") := by
      apply Node.Uses.deeper (List.mem_cons_of_mem _ (List.mem_singleton_self _))
      apply Node.Uses.deeper (List.mem_singleton_self _)
      apply Node.Uses.deeper List.mem_cons_self
      exact .here _
    have reserved : (Text.ofString "static").isStrictReserved = true := by decide
    exact ⟨_, parsed, uses, reserved, parse_strictly_unreserved parsed uses reserved⟩

end EcmaScript
