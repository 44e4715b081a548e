import EcmaScript.Proofs.Outcomes

/-!
Termination. A rule that stands in a loop or reads itself again takes a token at least, so a loop has
as many rounds as there are places left at most, and nested rules are as deep at most. A fault for want
of rounds or of depth is therefore never met: what is left of the source after the lookahead bounds
both. Main statement: from every parser that looks at a token, each of these rules fails for another
reason or moves on, no scanner runs out of rounds, and every program is read to an answer.
-/

namespace EcmaScript

open Parse

variable {α β : Type} {src : Source} {p : Parser}

theorem Excused.ne_exhausted {fault : ScanFault} {c : Cursor} (excused : Excused src fault c) :
    fault ≠ .exhausted := by
  rintro rfl
  exact excused

theorem Unread.ne_exhausted {fault : ScanFault} {c d : Cursor} (unread : Unread src c fault d) :
    fault ≠ .exhausted := by
  rcases unread with excused | ⟨rfl, -⟩
  · exact excused.ne_exhausted
  · nofun

/-! ### Scanners -/

/-- The scanner goes forward from the cursor, if it does not refuse the text there. -/
def Forward (src : Source) (c : Cursor) (scanner : ScanM α) : Prop :=
  Meets scanner c (fun _ d => c.index ≤ d.index ∧ d.index ≤ src.size) (fun fault _ => fault ≠ .exhausted)

section

variable {c : Cursor}

theorem Layout.skipAll_forward (bound : c.index ≤ src.size) : Forward src c (skipAll src) := by
  refine (skipAll_reaches bound).mono (fun _ d met => ?_) fun _ _ excused => excused.ne_exhausted
  exact ⟨met.1.index, met.1.bound⟩

theorem Lexer.token_forward {braces : List Brace} (strict : Bool) (lineStart : Option Nat)
    (bound : c.index ≤ src.size) (opened : c.braces = some braces) :
    Forward src c (token src strict lineStart) := by
  refine (token_meets strict lineStart bound opened).mono (fun token d scanned => ?_)
    fun _ _ unread => unread.ne_exhausted
  refine ⟨?_, scanned.bound⟩
  -- Only the end of the source is no step forward.
  by_cases isEnd : token.lexeme = .endOfSource
  · obtain ⟨here, there⟩ := scanned.ended isEnd
    omega
  · exact Nat.le_of_lt (scanned.moved isEnd)

theorem RegExp.scan_forward (found : src[c.index]? = some 0x2F) : Forward src c (scan src) := by
  refine (scan_reaches found).mono (fun _ d met => ?_) fun _ _ excused => excused.ne_exhausted
  exact ⟨met.1.index, met.1.bound⟩

end

/-! ### Rules -/

namespace Grammar

/-- From a parser that looks at a token the rule moves on, if it does not refuse the text there. The
depth that it needs is what is left of the source. -/
def Advances (rule : Reader → ParseM α) : Prop :=
  ∀ (src : Source) (depth : Nat) (p : Parser) (token : Token), Coherent src p token →
    src.size ≤ p.place + depth →
    Meets (rule (readerOf depth)) p (fun _ q => p.place < q.place ∧ ∃ next, Coherent src q next)
      (fun fault _ => fault ≠ .exhausted)

namespace Advances

variable {rule : Reader → ParseM α}

/-- A rule that goes to a later place from wherever it is. -/
theorem of_goes (goes : ∀ {src : Source} {k : Nat} {l : Int} {reader : Reader},
    Reliable src (k + 1) reader → Goes src k l (rule reader) (k + 1) l) : Advances rule := by
  intro src depth p token coherent enough
  have here : p.At src p.place p.level := ⟨⟨token, coherent⟩, Nat.le_refl _, rfl⟩
  have reliable : Reliable src (p.place + 1) (readerOf depth) :=
    readerOf_reliable depth _ (by omega)
  refine (goes reliable p here).mono (fun _ q there => ?_) fun _ _ fault => fault.ne_exhausted
  exact ⟨there.place, there.coherent⟩

theorem addParameter (blame : Token → β) (f : Formals β) :
    Advances fun reader => addParameter reader blame f := by
  intro src depth p token coherent enough
  have here : p.At src p.place p.level := ⟨⟨token, coherent⟩, Nat.le_refl _, rfl⟩
  by_cases isEnd : token.lexeme = .endOfSource
  · have refuses : Meets (parameter (readerOf depth)) p (fun _ _ => False)
        (fun fault _ => fault ≠ .exhausted) := by
      refine .into ((lookahead_at here).mono (fun seen q met => ?_)
        fun _ _ fault => fault.ne_exhausted)
      obtain ⟨rfl, looked⟩ := met
      cases looked.lookahead.symm.trans coherent.lookahead
      rw [isEnd]
      exact nofun
    exact refuses.bind fun _ _ impossible => impossible.elim
  · have room : Roomy src p.place := .of_lt (coherent.place_lt_size_iff.mpr isEnd)
    have reliable : Reliable src (p.place + 1) (readerOf depth) :=
      readerOf_reliable depth _ (by omega)
    refine (addParameter_at reliable blame f here room).mono (fun _ q there => ?_)
      fun _ _ fault => fault.ne_exhausted
    exact ⟨there.place, there.coherent⟩

end Advances

theorem switchCase_goes {k : Nat} {l : Int} {reader : Reader} (reliable : Reliable src (k + 1) reader) :
    Goes src k l (switchCase reader) (k + 1) l :=
  .bind (switchClause_goes reliable) fun _ => .stay

end Grammar

/-! ### Programs -/

theorem Poised.coherent_of_fetch (poised : Poised src p) {q : Parser}
    (fetched : peek p = .ok () q ∨ ∃ given, lex p = .ok given q) : ∃ token, Coherent src q token := by
  rcases fetched with run | ⟨given, run⟩
  · exact ((peek_meets poised).of_ok run).coherent
  · exact ((lex_meets poised).of_ok run).2.1.coherent

/-- No program is given up for want of rounds or of depth. -/
theorem parse_ends (settings : Settings) (code : Text) : parse settings code ≠ .error .exhausted := by
  rcases parse_outcomes settings code with ⟨_, answer⟩ | ⟨_, _, answer⟩ | ⟨_, -, answer, -⟩
  all_goals
    rw [answer]
    nofun

namespace Grammar

/-- Every rule that stands in a loop or reads itself again moves on from the token that has just been
fetched, or refuses the text; it never runs out of rounds or depth. Nor does a scanner, and so each
program comes to an end. -/
theorem rules_advance : (∀ src p q, Poised src p → (peek p = .ok () q ∨ ∃ given, lex p = .ok given q) →
      ∃ token, Coherent src q token) ∧
    (Advances listItem ∧ Advances statement ∧ Advances switchCase ∧ Advances assignmentExpression ∧
      Advances unaryExpression ∧ Advances primary ∧ Advances property ∧
      (∀ (β : Type) (blame : Token → β) (f : Formals β),
        Advances fun reader => addParameter reader blame f) ∧ Advances variableDeclarator ∧
      (∀ constant, Advances fun reader => lexicalBinding reader constant) ∧
      (Advances fun _ => dottedMember) ∧ Advances computedMember ∧ Advances arguments) ∧
    (∀ src c, c.index ≤ src.size → Forward src c (Layout.skipAll src) ∧
      (∀ strict lineStart braces, c.braces = some braces →
        Forward src c (Lexer.token src strict lineStart)) ∧
      (src[c.index]? = some 0x2F → Forward src c (RegExp.scan src))) ∧
    ∀ settings code, parse settings code ≠ .error .exhausted := by
  refine ⟨fun src p q poised fetched => poised.coherent_of_fetch fetched, ?_, fun src c bound => ?_,
    parse_ends⟩
  · exact ⟨.of_goes listItem_goes, .of_goes statement_goes, .of_goes switchCase_goes,
      .of_goes assignmentExpression_goes, .of_goes unaryExpression_goes, .of_goes primary_goes,
      .of_goes property_goes, fun _ => .addParameter, .of_goes variableDeclarator_goes,
      fun constant => .of_goes fun reliable => lexicalBinding_goes reliable constant,
      .of_goes fun _ => dottedMember_goes, .of_goes computedMember_goes, .of_goes arguments_goes⟩
  · exact ⟨Layout.skipAll_forward bound,
      fun strict lineStart _ opened => Lexer.token_forward strict lineStart bound opened,
      RegExp.scan_forward⟩

/-- The first statement of a program moves on to the second, with no more depth than characters. -/
theorem rules_advance_first_statement :
    ∃ p token node q, peek (Parser.begin {} (Text.ofString "a=b;c")) = .ok () p ∧
      Coherent (Parser.sourceOf (Text.ofString "a=b;c")) p token ∧
      statement (readerOf 15) p = .ok node q ∧ p.place < q.place := by
  obtain ⟨node, q, run⟩ := Meets.runs (m := do peek; statement (readerOf 15))
    (s := Parser.begin {} (Text.ofString "a=b;c")) (by decide +kernel)
  obtain ⟨_, p, fetched, run⟩ := bind_ok_iff.mp run
  obtain ⟨token, coherent⟩ := rules_advance.1 _ _ p (.of_begin {} _) (.inl fetched)
  have enough : (Parser.sourceOf (Text.ofString "a=b;c")).size ≤ p.place + 15 :=
    Nat.le_trans (by decide) (Nat.le_add_left 15 _)
  have advanced := (rules_advance.2.1.2.1 _ 15 p token coherent enough).of_ok run
  exact ⟨p, token, node, q, fetched, coherent, run, advanced.1⟩

end Grammar

end EcmaScript
