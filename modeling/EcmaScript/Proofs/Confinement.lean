import EcmaScript.Proofs.Composition
import EcmaScript.Proofs.ReservedNames

/-!
Strict code ends with its function. A program behind a function of strict code is read as it is alone,
except for one token: the closing brace of the function is taken while the code is still strict, and with
it the first token of the program is fetched. Where that token is a name that strict code reserves, it
has become a keyword, and no statement begins with it.
-/

namespace EcmaScript

open Parse Grammar

@[irreducible]
def declared : Text :=
  Text.ofString "function f()\x7b\"use strict\";\x7d\n"

def strictFunction : Node :=
  .functionDeclaration (some (.identifier (Text.ofString "f"))) [] [] (.blockStatement [strictDirective])

/-! ### The pieces of the function -/

/-- One piece follows another in a text that goes on behind both. -/
def Placed.Adjoins (text : Text) (here next : Placed) (gap : Text) : Prop :=
  here.stop ≤ text.length ∧ (gap = [] ∨ gap = [0x20]) ∧
    text.drop here.stop = gap ++ (next.piece.text ++ text.drop next.stop) ∧
    next.start = here.stop + gap.length ∧ (text.drop next.stop).head?.any isDelimiter = true ∧
    next.piece.depthAfter? here.depth = some next.depth ∧ next.piece.text.head? ≠ some 0x2D

instance (text : Text) (here next : Placed) (gap : Text) : Decidable (here.Adjoins text next gap) :=
  inferInstanceAs (Decidable (_ ∧ _))

theorem Source.ahead_left {before : Text} {index : Nat} (code : Text) (inside : index ≤ before.length) :
    (Parser.sourceOf (before ++ code)).ahead index = before.drop index ++ (code ++ Parser.sentinel) := by
  simp [Source.ahead, Source.ofText, List.drop_append_of_le_length inside]

theorem Placed.Adjoins.precedes {text gap : Text} {here next : Placed} (code : Text)
    (adjoins : here.Adjoins text next gap) : here.Precedes (Parser.sourceOf (text ++ code)) next gap
      (text.drop next.stop ++ (code ++ Parser.sentinel)) := by
  obtain ⟨inside, small, cut, start, delimited, legible, late⟩ := adjoins
  refine ⟨small, ?_, start, ?_, legible, late⟩
  · rw [Source.ahead_left code inside, cut]
    simp
  · right
    cases rest : text.drop next.stop with
    | nil => simp [rest] at delimited
    | cons delimiter more => exact ⟨delimiter, _, rfl, by simpa [rest] using delimited⟩

abbrev functionAt : Placed :=
  ⟨.keyword .function, 0, 0⟩

abbrev nameAt : Placed :=
  ⟨.word ⟨Text.ofString "f", by decide, by decide⟩, 9, 0⟩

/-- How the pieces of the function follow one another. -/
theorem declared_adjoins : functionAt.Adjoins declared nameAt [0x20] ∧
    nameAt.Adjoins declared (markAt .openParen 10 0) [] ∧
    (markAt .openParen 10 0).Adjoins declared (markAt .closeParen 11 0) [] ∧
    (markAt .closeParen 11 0).Adjoins declared (markAt .openBrace 12 1) [] ∧
    (markAt .openBrace 12 1).Adjoins declared (directiveAt 13 1) [] ∧
    (markAt .semicolon 25 1).Adjoins declared (markAt .closeBrace 26 0) [] := by
  decide +kernel

/-- What the function begins with, its directive, and its end. -/
theorem declared_cut : declared.length = 28 ∧
    declared.drop 0 = Keyword.function.text ++ 0x20 :: declared.drop 9 ∧
    declared.drop 13 = useStrict.written ++ [0x3B, 0x7D, 0x0A] ∧ declared.drop 27 = [0x0A] := by
  decide +kernel

/-! ### Rules at known tokens -/

section

variable {α : Type} {reader : Reader} {src : Source} {p q : Parser} {after : Parser → Prop}
variable {fails : Fault → Parser → Prop}

section

variable (lexes : Meets lex p (fun given q => given = p.lookahead ∧ after q) fails)
include lexes

theorem take_looks {lexeme : Lexeme} (looks : p.Looks lexeme) :
    Meets take p (fun token q => token.lexeme = lexeme ∧ after q) fails := by
  obtain ⟨token, looked, same⟩ := looks
  refine .into (lexes.imp ?_)
  rintro _ q ⟨rfl, met⟩
  simp only [looked]
  exact ⟨same, met⟩

theorem expect_looks {mark : Punctuator} (looks : p.Looks (.punctuator mark)) :
    Meets (expect mark) p (fun _ q => after q) fails := by
  refine (take_looks lexes looks).bind fun token q met => ?_
  rw [if_pos met.1]
  exact met.2

theorem expectKeyword_looks {word : Keyword} (looks : p.Looks (.keyword word)) :
    Meets (expectKeyword word) p (fun _ q => after q) fails := by
  refine (take_looks lexes looks).bind fun token q met => ?_
  rw [if_pos met.1]
  exact met.2

/-- A name that strict code has nothing against. -/
theorem functionName_looks {name : Text} (looks : p.Looks (.identifier name))
    (free : name.isRestricted = false ∧ name.isStrictReserved = false) :
    Meets functionName p (fun found q => found = (name, none) ∧ after q) fails := by
  refine looks.lookahead_bind fun token _ _ => ?_
  have named : Meets bindingName p (fun found q => found = name ∧ after q) fails := by
    refine (take_looks lexes looks).bind fun token q met => ?_
    simp only [met.1]
    exact ⟨rfl, met.2⟩
  refine named.bind ?_
  rintro _ q ⟨rfl, met⟩
  refine .into (.get_bind (.pure ?_))
  simp only [free.1, free.2, Bool.false_eq_true, if_false, ite_self]
  exact ⟨rfl, met⟩

end

theorem parameters_none {β : Type} {blame : Token → β} {i j d : Nat} {next : Placed} {rest rest' : Text}
    (here : AtPiece src (markAt .openParen i d) p)
    (closes : (markAt .openParen i d).Precedes src (markAt .closeParen j d) [] rest)
    (follows : (markAt .closeParen j d).Precedes src next [] rest')
    (loose : ¬ IsSpelledOut next.piece.text) :
    Meets (parameters reader blame none) p (fun f q => f = {} ∧ AtPiece src next q) fails := by
  refine (expect_looks (here.lex closes fun _ => Punctuator.not_spelledOut _) here.looks).bind ?_
  intro _ q inner
  refine inner.looks.ifMark (.into (.pure ?_))
  refine (expect_looks (inner.lex follows fun _ => loose) inner.looks).bind fun _ q outer => ?_
  exact ⟨rfl, outer⟩

theorem AtPiece.stringStatement?_none {here : Placed} (at_piece : AtPiece src here p)
    (other : ∀ value isOctal, here.piece.lexeme ≠ .string value isOctal)
    (notEnd : here.piece.lexeme ≠ .endOfSource) :
    Meets (stringStatement? reader) p (fun found q => found = none ∧ q = p) fails := by
  obtain ⟨token, coherent, ⟨isPiece, -⟩, -⟩ := at_piece.token
  refine coherent.inside_ite (by rwa [isPiece]) (at_piece.looks.lookahead_bind fun token _ isPiece => ?_)
  split
  next isString => exact absurd (isPiece.symm.trans isString) (other _ _)
  next => exact ⟨rfl, rfl⟩

theorem Parse.repeated_twice {β : Type} {body : β → ParseM (β ⊕ α)} {b : β} {returns : α → Parser → Prop}
    (ends : Meets (body b) p (fun answer q => ∃ next, answer = .inl next ∧
      Meets (body next) q (fun answer r => ∃ a, answer = .inr a ∧ returns a r) fails) fails) :
    Meets (repeated body b) p returns fails := by
  refine .get_bind (.into (ends.imp ?_))
  rintro _ q ⟨next, rfl, second⟩
  refine .into (second.imp ?_)
  rintro _ r ⟨a, rfl, met⟩
  exact met

end

/-! ### The function -/

/-- The parser is in the function, in front of the piece. -/
abbrev InFunction (code : Text) : Placed → Parser → Prop :=
  AtPiece (Parser.sourceOf (declared ++ code))

/-- In front of the program behind the function, whose first token is `t` where it stands alone. That
token has been fetched as strict code. -/
structure Resumed (code : Text) (p : Parser) (t : Token) (q : Parser) : Prop where
  fetched : ∃ u, Coherent (Parser.sourceOf (declared ++ code)) q u ∧
    (t.Unreserved → (Window.tail declared code []).Facing False p q t u) ∧
    (¬ t.Unreserved → ∃ word ∈ Keyword.onlyStrict, u.lexeme = .keyword word)

section

variable {settings : Settings} {code : Text} {p q r : Parser} {t u : Token} {depth : Nat}

theorem Resumed.still (resumed : Resumed code p t q) (still : q.Still r) : Resumed code p t r := by
  obtain ⟨u, coherent, facing, reserved⟩ := resumed.fetched
  exact ⟨u, coherent.still still, fun free => (facing free).still (.refl _) still id, reserved⟩

theorem Resumed.present (resumed : Resumed code p t q) : q.context.isSome := by
  obtain ⟨u, coherent, -⟩ := resumed.fetched
  exact Option.isSome_iff_exists.mpr coherent.context

/-- A name that is not reserved stays what it is in strict code. -/
theorem Lexeme.Tightens.of_unreserved (similar : t.lexeme.Tightens u.lexeme ∨ u.lexeme.Tightens t.lexeme)
    (free : t.Unreserved) : t.lexeme.Tightens u.lexeme := by
  rcases similar with tightens | same | ⟨word, member, -, isName⟩
  · exact tightens
  · exact .inl same.symm
  · have reserved : ∀ word ∈ Keyword.onlyStrict, word.text.isStrictReserved = true := by decide
    have notReserved := free word.text isName
    rw [reserved word member] at notReserved
    cases notReserved

theorem Lexeme.Tightens.of_reserved (similar : t.lexeme.Tightens u.lexeme ∨ u.lexeme.Tightens t.lexeme)
    (unreserved : u.Unreserved) (reserved : ¬ t.Unreserved) :
    ∃ word ∈ Keyword.onlyStrict, u.lexeme = .keyword word := by
  have differ : t.lexeme ≠ u.lexeme := fun same => reserved (by rwa [Token.Unreserved, same])
  rcases similar with (same | ⟨word, -, isWord, -⟩) | same | ⟨word, member, isWord, -⟩
  · exact absurd same differ
  · exact absurd (fun name isName => nomatch isWord.symm.trans isName) reserved
  · exact absurd same.symm differ
  · exact ⟨word, member, isWord⟩

theorem lex_copied (peeked : peek (Parser.begin { settings } code) = .ok () p)
    (coherent : Coherent (Parser.sourceOf code) p t)
    (here : InFunction code (markAt .closeBrace 26 0) q) :
    Meets lex q (fun _ r => ∃ u, r.lookahead = some u ∧
      (t.lexeme.Tightens u.lexeme ∨ u.lexeme.Tightens t.lexeme) ∧
      (t.lexeme.Tightens u.lexeme → (Window.tail declared code []).Facing False p r t u))
      (only .exhausted) := by
  obtain ⟨between, after, t', layout, reads, rfl⟩ := (peek_ok_iff rfl).mp peeked
  obtain rfl : t' = t := Option.some.inj coherent.lookahead
  have place : q.cursor.index = 27 := congrArg (·.index) here.cursor
  obtain ⟨length, -, -, cut⟩ := declared_cut
  have lineFeed : (Parser.sourceOf (declared ++ code)).ahead q.cursor.index =
      0x0A :: (code ++ Parser.sentinel) := by
    rw [place, Source.ahead_left code (by omega), cut]
    rfl
  have index : q.cursor.index + 1 = declared.length := by rw [place, length]
  have braces : q.cursor.braces = some [] := by
    rw [here.cursor]
    rfl
  refine lex_spent here.source ?_
  refine .modify_bind (.get_bind ?_)
  refine .into (Layout.piece_lineFeed lineFeed ?_)
  -- Behind the line feed both sides are at the start of a line.
  refine (pieces_tail (q := q.giving) layout reads coherent here.source (by exact index)
    (by exact braces)).imp ?_
  intro _ between' copy
  exact copy.imp fun u cursor' met => ⟨u, rfl, met.1.similar, fun tightens => met.2 tightens _⟩

theorem lex_resumed (peeked : peek (Parser.begin { settings } code) = .ok () p)
    (coherent : Coherent (Parser.sourceOf code) p t)
    (here : InFunction code (markAt .closeBrace 26 0) q) (strict : q.strict = some true) :
    Meets lex q (fun given r => given = q.lookahead ∧ Resumed code p t r) (only .exhausted) := by
  obtain ⟨_, poised, -⟩ := here.token
  have lexed : Meets lex q (fun given r => given = q.lookahead ∧
      Lexed (Parser.sourceOf (declared ++ code)) q r ∧ r.last = some q.cursor.toMark) anyFault :=
    (lex_meets poised.toPoised).mono (fun _ _ met => met) fun _ _ _ => trivial
  have unreserved := lex_unreserved (p := q) ⟨here.source, strict⟩
  refine (((lex_copied peeked coherent here).and_returns lexed).and_returns unreserved).imp ?_
  rintro given r ⟨⟨⟨u, looked, similar, facing⟩, given_eq, lexed, -⟩, -, unreserved⟩
  obtain ⟨u', coherent'⟩ := lexed.coherent
  obtain rfl : u = u' := Option.some.inj (looked.symm.trans coherent'.lookahead)
  refine ⟨given_eq, u, coherent', fun free => ?_, fun reserved => ?_⟩
  · exact facing (.of_unreserved similar free)
  · exact Lexeme.Tightens.of_reserved similar (unreserved u looked) reserved

theorem declared_directed (code : Text) : (Parser.sourceOf (declared ++ code)).Directed 13
    (0x7D :: 0x0A :: (code ++ Parser.sentinel)) := by
  refine ⟨?_, .inr ⟨_, _, rfl, by decide⟩⟩
  obtain ⟨length, -, cut, -⟩ := declared_cut
  rw [Source.ahead_left code (by omega), cut]
  simp

variable {fails : Fault → Parser → Prop}

theorem lex_closeBrace (here : InFunction code (markAt .semicolon 25 1) p) :
    Meets lex p (fun given q => given = p.lookahead ∧ InFunction code (markAt .closeBrace 26 0) q)
      fails := by
  obtain ⟨-, -, -, -, -, adjoins⟩ := declared_adjoins
  exact here.lex (adjoins.precedes code) fun _ => Punctuator.not_spelledOut _

theorem readerOf_declared (here : InFunction code (directiveAt 13 1) p) :
    Meets (readerOf depth .listItem) p (fun statement q => statement = strictDirective ∧
      q.source = some (Parser.sourceOf (declared ++ code)) ∧
      InFunction code (markAt .closeBrace 26 0) q) (only .exhausted) := by
  cases depth with
  | zero => exact rfl
  | succ depth =>
    have goes (s : Parser) (behind : InFunction code (markAt .semicolon 25 1) s) :
        Meets lex s (fun _ _ => True) (only .exhausted) :=
      (lex_closeBrace behind).imp fun _ _ _ => trivial
    refine Meets.imp (listItem_directive (declared_directed code) here goes) ?_
    rintro statement q ⟨rfl, ⟨s, given, behind, run⟩, -⟩
    have closes : Meets lex s _ anyFault := lex_closeBrace behind
    have met := closes.of_ok run
    exact ⟨rfl, met.2.source, met.2⟩

theorem directives_declared (here : InFunction code (directiveAt 13 1) p) :
    Meets (directives (readerOf depth)) p (fun body q => body = [strictDirective] ∧
      InFunction code (markAt .closeBrace 26 0) q ∧ q.strict = some true) (only .exhausted) := by
  show Meets (repeated (directiveRound (readerOf depth) refuseOctal) ([], none)) p _ _
  apply repeated_twice
  rw [directiveRound_eq]
  refine (stringStatement?_directive (declared_directed code) here (readerOf_declared here)).bind ?_
  rintro _ q ⟨token, rfl, behind⟩
  refine .modify_bind (.into (.pure ?_))
  refine ⟨_, rfl, ?_⟩
  -- The code is strict now, and the closing brace is no directive.
  have still : q.Still { q with strict := some true } := ⟨rfl, rfl, rfl, rfl, id, id⟩
  rw [directiveRound_eq]
  refine ((behind.still still).stringStatement?_none nofun nofun).bind ?_
  rintro _ _ ⟨rfl, rfl⟩
  exact ⟨_, rfl, rfl, behind.still still, rfl⟩

theorem statementsFrom_declared {reader : Reader}
    (here : InFunction code (markAt .closeBrace 26 0) p) (before : List Node) :
    Meets (statementsFrom reader before) p (fun body q => body = before ∧ q = p) fails := by
  obtain ⟨token, coherent, ⟨isMark, -⟩, -⟩ := here.token
  apply repeated_once
  refine coherent.inside_ite (by rw [isMark]; nofun) (here.looks.ifMark ?_)
  exact ⟨before, rfl, rfl, rfl⟩

theorem functionBody_declared (peeked : peek (Parser.begin { settings } code) = .ok () p)
    (coherent : Coherent (Parser.sourceOf code) p t) (here : InFunction code (markAt .openBrace 12 1) q) :
    Meets (functionBody (readerOf depth)) q (fun node r => node = .blockStatement [strictDirective] ∧
      Resumed code p t r) (only .exhausted) := by
  obtain ⟨-, -, -, -, adjoins, -⟩ := declared_adjoins
  have loose : ¬ IsSpelledOut useStrict.written := fun spelled => absurd spelled.2 (by decide)
  refine (expect_looks (here.lex (adjoins.precedes code) fun _ => loose) here.looks).bind ?_
  intro _ q₁ here
  refine (directives_declared here).bind ?_
  rintro _ q₂ ⟨rfl, here, strict⟩
  refine context_bind here.present fun outer _ => ?_
  refine (changeContext_still _ here.present).bind fun _ q₃ entered => ?_
  have here := here.still entered.1
  have strict := (congrArg Registers.strict entered.2).trans strict
  refine (statementsFrom_declared here _).bind ?_
  rintro _ _ ⟨rfl, rfl⟩
  refine (expect_looks (lex_resumed peeked coherent here strict) here.looks).bind fun _ q₄ resumed => ?_
  refine (changeContext_still _ resumed.present).bind fun _ q₅ left => ?_
  exact ⟨rfl, resumed.still left.1⟩

theorem refuseRestricted_none : Meets (refuseRestricted {} none) q (fun _ r => r = q) fails := by
  refine .into (.get_bind (.pure ?_))
  exact .ite (fun _ => rfl) fun _ => rfl

section

variable (peeked : peek (Parser.begin { settings } code) = .ok () p)
include peeked

section

variable (coherent : Coherent (Parser.sourceOf code) p t)
include coherent

theorem bodyThen_declared (here : InFunction code (markAt .openBrace 12 1) q) :
    Meets (bodyThen (functionBody (readerOf depth)) (refuseRestricted {} none)) q
      (fun node r => node = .blockStatement [strictDirective] ∧ Resumed code p t r)
      (only .exhausted) := by
  refine .get_bind ?_
  refine (functionBody_declared peeked coherent here).bind ?_
  rintro _ r ⟨rfl, resumed⟩
  refine refuseRestricted_none.bind ?_
  rintro _ _ rfl
  refine .modify_bind ?_
  exact ⟨rfl, resumed.still ⟨rfl, rfl, rfl, rfl, id, id⟩⟩

theorem functionTail_declared (here : InFunction code nameAt q) :
    Meets (functionTail (readerOf depth) false) q (fun found r =>
      found = (some (.identifier (Text.ofString "f")), {}, .blockStatement [strictDirective]) ∧
        Resumed code p t r) (only .exhausted) := by
  obtain ⟨-, opens, closes, enters, -⟩ := declared_adjoins
  have looks : q.Looks (.identifier (Text.ofString "f")) := by
    have isName : nameAt.piece.lexeme = .identifier (Text.ofString "f") := by decide
    exact isName ▸ here.looks
  have named : Meets functionName q (fun found r => found = (Text.ofString "f", none) ∧
      InFunction code (markAt .openParen 10 0) r) (only .exhausted) :=
    functionName_looks (here.lex (opens.precedes code) fun _ => Punctuator.not_spelledOut _) looks
      (by decide)
  refine looks.unlessMark nofun ?_
  refine .into (Meets.map_iff.mpr (named.imp ?_))
  rintro _ q₁ ⟨rfl, here⟩
  have listed : Meets (parameters (readerOf depth) id none) q₁ (fun f r => f = {} ∧
      InFunction code (markAt .openBrace 12 1) r) (only .exhausted) :=
    parameters_none here (closes.precedes code) (enters.precedes code) (Punctuator.not_spelledOut _)
  refine Meets.bind listed ?_
  rintro _ q₂ ⟨rfl, here⟩
  refine Meets.bind (bodyThen_declared peeked coherent here) ?_
  rintro _ r ⟨rfl, resumed⟩
  exact ⟨rfl, resumed⟩

theorem listItem_declared (here : InFunction code functionAt q) (sloppy : q.isStrict = false) :
    Meets (listItem (readerOf depth)) q (fun node r => node = strictFunction ∧ Resumed code p t r)
      (only .exhausted) := by
  obtain ⟨adjoins, -⟩ := declared_adjoins
  have looks : q.Looks (.keyword .function) := here.looks
  refine looks.lookahead_bind fun token _ isKeyword => ?_
  simp only [isKeyword]
  have named : Meets lex q (fun given r => given = q.lookahead ∧ InFunction code nameAt r)
      (only .exhausted) :=
    here.lex (adjoins.precedes code) fun strict => nomatch sloppy.symm.trans strict
  refine (expectKeyword_looks named looks).bind fun _ q₁ here => ?_
  refine (functionTail_declared peeked coherent here).bind ?_
  rintro _ r ⟨rfl, resumed⟩
  exact ⟨rfl, resumed⟩

end

end

/-! ### The program behind it -/

section

variable (peeked : peek (Parser.begin { settings } code) = .ok () p)
include peeked

theorem readerOf_function (coherent : Coherent (Parser.sourceOf code) p t) (here : InFunction code functionAt q)
    (unbegun : Unbegun settings q) :
    Meets (readerOf depth .listItem) q (fun node r => node = strictFunction ∧ Resumed code p t r ∧
      r.context = some {} ∧ r.settings = settings ∧ r.isStrict = false) (only .exhausted) := by
  cases depth with
  | zero => exact rfl
  | succ depth =>
    have sloppy : q.isStrict = false := by simp [Parser.isStrict, unbegun.strict]
    have restores := (readerOf_restores (depth + 1)).keeps .listItem q
    obtain ⟨token, coherent₀, -⟩ := here.token
    obtain ⟨journal, performs⟩ :=
      (readerOf_logs (depth + 1) .listItem q (by rw [coherent₀.lookahead]; rfl)).performs
    have read : Meets (readerOf (depth + 1) .listItem) q _ _ := listItem_declared peeked coherent here sloppy
    refine ((read.and_returns restores).and_returns performs.settings).imp ?_
    rintro node r ⟨⟨⟨rfl, resumed⟩, kept⟩, same⟩
    refine ⟨rfl, resumed, kept.context.trans unbegun.context, same.trans unbegun.settings, ?_⟩
    simp [Parser.isStrict, kept.strict, unbegun.strict]

theorem script_declared {returns : List Node → Parser → Prop}
    (spent : ∀ q, fails .exhausted q) (coherent : Coherent (Parser.sourceOf code) p t)
    (here : InFunction code functionAt q) (unbegun : Unbegun settings q)
    (next : ∀ r, Resumed code p t r → r.context = some {} → r.settings = settings → r.isStrict = false →
      ∀ rounds, Meets (scriptFrom (readerOf depth) refuseOctal rounds ([strictFunction], none)) r
        returns fails) (rounds : Nat) :
    Meets (scriptFrom (readerOf depth) refuseOctal rounds ([], some none)) q returns fails := by
  obtain ⟨token, coherent₀, ⟨isKeyword, -⟩, -⟩ := here.token
  have items (rounds : Nat) :
      Meets (scriptFrom (readerOf depth) refuseOctal rounds ([], none)) q returns fails := by
    cases rounds with
    | zero => exact spent q
    | succ rounds =>
      refine .into ?_
      rw [scriptRound_none]
      refine Meets.map_iff.mpr (coherent₀.inside_ite (by rw [isKeyword]; nofun) ?_)
      refine Meets.bind ((readerOf_function peeked coherent here unbegun).mono (fun _ _ met => met)
        fun _ q failed => failed ▸ spent q) ?_
      rintro _ r ⟨rfl, resumed, context, settled, sloppy⟩
      exact next r resumed context settled sloppy rounds
  cases rounds with
  | zero => exact spent q
  | succ rounds =>
    refine .into ?_
    rw [scriptRound_some, directiveRound_eq]
    refine Meets.map_iff.mpr ((here.stringStatement?_none nofun nofun).bind ?_)
    rintro _ _ ⟨rfl, rfl⟩
    exact items rounds

theorem lexemes_head? (looked : p.lookahead = some t) :
    (lexemes settings code).head? = some t.lexeme := by
  have stream : (TokenStream.read (Parser.begin { settings } code)).tokens =
      (TokenStream.rest ((Parser.sourceOf code).size + 1 + 1) p).tokens := by
    rw [TokenStream.read, peeked]
    rfl
  rw [lexemes, stream, List.head?_map, TokenStream.rest_head? looked]
  rfl

end

theorem peek_function (code : Text) :
    Meets peek (Parser.begin { settings } (declared ++ code)) (fun _ q => InFunction code functionAt q)
      fails := by
  obtain ⟨-, cut, -⟩ := declared_cut
  have found : (Parser.sourceOf (declared ++ code)).ahead 0 =
      Keyword.function.text ++ 0x20 :: (declared.drop 9 ++ (code ++ Parser.sentinel)) := by
    rw [Source.ahead_left code (Nat.zero_le _), cut, List.append_assoc]
    rfl
  exact peek_piece found rfl (.inr ⟨_, _, rfl, by decide⟩) rfl (by decide)

/-- A program that begins with no reserved name is read behind the function as it is alone. -/
theorem parse_resumed {body : List Node} {p' : Parser} {rounds : Nat}
    (sloppy : Sloppy settings code body p p' rounds) (coherent : Coherent (Parser.sourceOf code) p t)
    (free : t.Unreserved) :
    parse settings (declared ++ code) = .ok (.program (strictFunction :: body)) := by
  suffices read : ∃ found, parse settings (declared ++ code) = .ok (.program found) ∧
      found = strictFunction :: body by
    obtain ⟨_, joined, rfl⟩ := read
    exact joined
  have begun : Meets peek (Parser.begin { settings } (declared ++ code))
      (fun _ q => InFunction code functionAt q ∧ Unbegun settings q) (only .exhausted) :=
    (peek_function code).and_returns (.of_returns fun _ _ run => .of_peek run)
  refine parse_of_meets (begun.imp ?_)
  rintro _ q ⟨here, unbegun⟩
  refine scriptBody_meets (script_declared sloppy.peeked (fun _ => rfl) coherent here unbegun ?_)
  intro r resumed context settled notStrict rounds
  obtain ⟨u, -, facing, -⟩ := resumed.fetched
  exact tail_onto sloppy (facing free) context settled notStrict ([strictFunction], none) rounds

/-- A program that begins with a reserved name is not read behind the function. -/
theorem parse_reserved {found : Node} (peeked : peek (Parser.begin { settings } code) = .ok () p)
    (coherent : Coherent (Parser.sourceOf code) p t) (reserved : ¬ t.Unreserved) :
    parse settings (declared ++ code) ≠ .ok found := by
  intro parsed
  obtain ⟨q, q', body, peeked', script, rfl⟩ := parse_ok parsed
  obtain ⟨rounds, script⟩ := scriptBody_ok script
  have begun : Meets peek (Parser.begin { settings } (declared ++ code)) _ anyFault := peek_function code
  have here := begun.of_ok peeked'
  have never : Meets (scriptFrom (readerFor (declared ++ code)) refuseOctal rounds ([], some none)) q
      (fun _ _ => False) anyFault := by
    refine script_declared peeked (fun _ => trivial) coherent here (.of_peek peeked') ?_ rounds
    intro r resumed _ _ _ rounds
    obtain ⟨u, coherent', -, keyword⟩ := resumed.fetched
    obtain ⟨word, member, isWord⟩ := keyword reserved
    exact items_barren (List.mem_cons_of_mem _ member) coherent' isWord _
  exact never.of_ok script

/-- Strictness ends with its function: in front of a program that is not strict, a function of strict
code adds itself and changes nothing else. The one exception is a program that begins with a name that
strict code reserves, which is not read behind the function. -/
theorem parse_behind_strict {root : Node} (parsed : parse settings code = .ok root)
    (absent : Text.ofString "use strict" ∉ prologue settings code) :
    ∃ body, root = .program body ∧ ∀ found,
      parse settings (Text.ofString "function f()\x7b\"use strict\";\x7d\n" ++ code) = .ok found ↔
        found = .program (strictFunction :: body) ∧
          ∀ name, (lexemes settings code).head? = some (.identifier name) →
            name.isStrictReserved = false := by
  obtain ⟨_, _, body, -, -, rfl⟩ := parse_ok parsed
  obtain ⟨p, p', rounds, sloppy⟩ := Sloppy.of_parse parsed absent
  obtain ⟨⟨t, coherent⟩, -⟩ := (peek_meets (.of_begin _ code)).of_ok sloppy.peeked
  have unreserved : (∀ name, (lexemes settings code).head? = some (.identifier name) →
      name.isStrictReserved = false) ↔ t.Unreserved := by
    rw [lexemes_head? sloppy.peeked coherent.lookahead]
    simp only [Option.some.injEq, Token.Unreserved]
  have spelled : Text.ofString "function f()\x7b\"use strict\";\x7d\n" = declared := by
    unfold declared
    rfl
  refine ⟨body, rfl, fun found => ?_⟩
  rw [unreserved, spelled]
  constructor
  · intro behind
    by_cases free : t.Unreserved
    · have alone := parse_resumed sloppy coherent free
      exact ⟨(Except.ok.inj (behind.symm.trans alone)), free⟩
    · exact absurd behind (parse_reserved sloppy.peeked coherent free)
  · rintro ⟨rfl, free⟩
    exact parse_resumed sloppy coherent free

/-- A reserved name is read behind the function, unless the program begins with it. -/
theorem parse_behind_strict_name : (∃ body, parse {} (Text.ofString "a = static") = .ok (.program body) ∧
      parse {} (Text.ofString "function f()\x7b\"use strict\";\x7d\n" ++ Text.ofString "a = static") =
        .ok (.program (strictFunction :: body))) ∧
    (∃ body, parse {} (Text.ofString "static = a") = .ok (.program body)) ∧
    ∀ found, parse {} (Text.ofString "function f()\x7b\"use strict\";\x7d\n" ++
      Text.ofString "static = a") ≠ .ok found := by
  obtain ⟨_, later⟩ := parse_returns {} (Text.ofString "a = static") (by decide +kernel)
  obtain ⟨_, early⟩ := parse_returns {} (Text.ofString "static = a") (by decide +kernel)
  obtain ⟨body, rfl, behind⟩ := parse_behind_strict later (by decide +kernel)
  obtain ⟨body', rfl, behind'⟩ := parse_behind_strict early (by decide +kernel)
  have first : (lexemes {} (Text.ofString "a = static")).head? =
      some (.identifier (Text.ofString "a")) := by decide +kernel
  have first' : (lexemes {} (Text.ofString "static = a")).head? =
      some (.identifier (Text.ofString "static")) := by decide +kernel
  refine ⟨⟨body, later, (behind _).mpr ⟨rfl, ?_⟩⟩, ⟨body', early⟩, fun found parsed => ?_⟩
  · intro name isFirst
    cases first.symm.trans isFirst
    decide
  · have free := ((behind' found).mp parsed).2 _ first'
    revert free
    decide

end

end EcmaScript
