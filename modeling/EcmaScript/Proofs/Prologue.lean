import EcmaScript.Proofs.Journal
import EcmaScript.Proofs.Registers
import EcmaScript.Proofs.Scripts

/-!
How a script begins. An expression that is one primary expression before a semicolon is followed from
the statement down to that expression; so it is known what the directive of strict code is read as, and
that no script begins with `else`. A script without that directive is read as if it refused none of
its octal literals, and it leaves the parser outside of strict code.
-/

namespace EcmaScript

open Parse Grammar

variable {reader : Reader} {p q : Parser}

/-! ### Expressions that are one primary expression -/

section

variable {α β : Type} {returns : α → Parser → Prop} {fails : Fault → Parser → Prop}

theorem Parser.Looks.lookahead_bind {lexeme : Lexeme} {m : Token → ParseM α} (looks : p.Looks lexeme)
    (next : ∀ token, p.lookahead = some token → token.lexeme = lexeme →
      Meets (m token) p returns fails) : Meets (Parse.lookahead >>= m) p returns fails := by
  obtain ⟨token, looked, same⟩ := looks
  refine .into (.get_bind ?_)
  simp only [looked]
  exact next token looked same

theorem Parser.Looks.ifMark {mark : Punctuator} {yes no : ParseM α}
    (looks : p.Looks (.punctuator mark)) (goes : Meets yes p returns fails) :
    Meets (do if ← atMark mark then yes else no) p returns fails := by
  unfold atMark
  rw [bind_assoc]
  refine looks.lookahead_bind fun token _ isSuch => ?_
  simp only [isSuch, decide_true, pure_bind, if_true]
  exact goes

theorem Parser.Looks.unlessMark {lexeme : Lexeme} {mark : Punctuator} {yes no : ParseM α}
    (looks : p.Looks lexeme) (other : lexeme ≠ .punctuator mark) (goes : Meets no p returns fails) :
    Meets (do if ← atMark mark then yes else no) p returns fails := by
  unfold atMark
  rw [bind_assoc]
  refine looks.lookahead_bind fun token _ isSuch => ?_
  simp only [isSuch, other, decide_false, pure_bind, Bool.false_eq_true, if_false]
  exact goes

theorem Parse.context_bind {m : Context → ParseM α} (present : p.context.isSome)
    (next : ∀ outer, p.context = some outer → Meets (m outer) p returns fails) :
    Meets (context >>= m) p returns fails := by
  obtain ⟨outer, found⟩ := Option.isSome_iff_exists.mp present
  refine .into (.get_bind ?_)
  simp only [found]
  exact next outer found

theorem changeContext_still (change : Context → Context) (present : p.context.isSome) :
    Meets (changeContext change) p (fun _ q => p.Still q ∧ q.registers = p.registers) fails := by
  refine context_bind present fun outer _ => ?_
  exact ⟨⟨rfl, rfl, rfl, rfl, id, fun _ => rfl⟩, rfl⟩

theorem Parse.repeated_once {body : β → ParseM (β ⊕ α)} {b : β}
    (ends : Meets (body b) p (fun answer q => ∃ a, answer = .inr a ∧ returns a q) fails) :
    Meets (repeated body b) p returns fails := by
  refine .get_bind (.into (ends.imp ?_))
  rintro _ q ⟨a, rfl, met⟩
  exact met

end

/-- Where `before` holds there is a primary expression, and `after` tells what it leaves: a
semicolon, before all. Neither depends on the registers that the levels above write. -/
structure Leaf (reader : Reader) (before : Parser → Prop) (after : Node → Parser → Prop)
    (fails : Fault → Parser → Prop) : Prop where
  starts : ∀ {p}, before p → ∃ lexeme, p.Looks lexeme ∧ lexeme.updateOperator? = none ∧
    lexeme.unaryOperator? = none ∧ lexeme ≠ .keyword .super ∧ lexeme ≠ .keyword .new
  context : ∀ {p}, before p → p.context.isSome
  before_still : ∀ {p q}, before p → p.Still q → before q
  primary : ∀ {p}, before p → Meets (primary reader) p
    (fun node q => after node q ∧ q.coverInitialized = p.coverInitialized) fails
  after_still : ∀ {node p q}, after node p → p.Still q → after node q
  context_after : ∀ {node p}, after node p → p.context.isSome
  ends : ∀ {node p}, after node p → p.Looks (.punctuator .semicolon)

namespace Leaf

/-- What a part reads where the expression stands. The register of the cover grammar stays. -/
def Reads (before : Parser → Prop) (after : Node → Parser → Prop) (fails : Fault → Parser → Prop)
    (part : ParseM Node) : Prop :=
  ∀ {p}, before p →
    Meets part p (fun node q => after node q ∧ q.coverInitialized = p.coverInitialized) fails

variable {before : Parser → Prop} {after : Node → Parser → Prop} {fails : Fault → Parser → Prop}
  (leaf : Leaf reader before after fails)

include leaf

theorem inherited {part : ParseM Node} (reads : Reads before after fails part) :
    Reads before after fails (inherited part) := by
  intro p here
  have still : p.Still p.opened := ⟨rfl, rfl, rfl, rfl, id, id⟩
  refine inherited_iff.mpr ((reads (leaf.before_still here still)).imp fun node q found => ⟨?_, ?_⟩)
  · exact leaf.after_still found.1 ⟨rfl, rfl, rfl, rfl, id, id⟩
  · show p.coverInitialized.or q.coverInitialized = p.coverInitialized
    rw [found.2]
    exact Option.or_none

theorem head : Reads before after fails (head reader) := by
  intro p here
  obtain ⟨lexeme, looks, -, -, notSuper, notNew⟩ := leaf.starts here
  refine looks.lookahead_bind fun token _ isSuch => context_bind (leaf.context here) fun outer _ => ?_
  simp only [isSuch, notSuper, notNew, decide_false, Bool.false_and, Bool.false_eq_true, if_false]
  exact leaf.inherited leaf.primary here

theorem suffixes {node : Node} {cover : Option Token} (allowCall : Bool)
    (found : after node p ∧ p.coverInitialized = cover) :
    Meets (suffixes reader allowCall node) p (fun node q => after node q ∧ q.coverInitialized = cover)
      fails := by
  -- The loop ends in its first round, since no suffix starts with a semicolon.
  refine repeated_once ((leaf.ends found.1).lookahead_bind fun token _ isMark => ?_)
  simp only [isMark]
  exact ⟨node, rfl, found⟩

theorem leftHandSideAllowCall : Reads before after fails (leftHandSideAllowCall reader) := by
  intro p here
  refine context_bind (leaf.context here) fun outer _ => ?_
  refine (changeContext_still _ (leaf.context here)).bind fun _ p₁ still => ?_
  have inner := leaf.head (leaf.before_still here still.1)
  refine Meets.bind (inner.bind fun node p₂ found => leaf.suffixes true found) fun node p₂ found => ?_
  refine (changeContext_still _ (leaf.context_after found.1)).bind fun _ p₃ still' => ?_
  have cover := congrArg Registers.coverInitialized still.2
  have cover' := congrArg Registers.coverInitialized still'.2
  exact ⟨leaf.after_still found.1 still'.1, (cover'.trans found.2).trans cover⟩

theorem postfixExpression : Reads before after fails (postfixExpression reader) := by
  intro p here
  refine (leaf.inherited leaf.leftHandSideAllowCall here).bind fun node q found => ?_
  refine .into (.get_bind (.pure ?_))
  refine .ite (fun _ => found) fun _ => (leaf.ends found.1).lookahead_bind fun token _ isMark => ?_
  simp only [isMark, Lexeme.updateOperator?]
  exact found

theorem unaryExpression : Reads before after fails (unaryExpression reader) := by
  intro p here
  obtain ⟨lexeme, looks, noUpdate, noUnary, -⟩ := leaf.starts here
  refine looks.lookahead_bind fun token _ isSuch => ?_
  simp only [isSuch, noUpdate, noUnary]
  exact leaf.postfixExpression here

theorem binaryExpression : Reads before after fails (binaryExpression reader) := by
  intro p here
  refine (leaf.inherited leaf.unaryExpression here).bind fun node q found => ?_
  unfold binaryOperator?
  rw [bind_assoc]
  refine (leaf.ends found.1).lookahead_bind fun token _ isMark => ?_
  rw [bind_assoc]
  refine context_bind (leaf.context_after found.1) fun outer _ => ?_
  simp only [isMark, Lexeme.binaryOperator?, pure_bind]
  exact found

theorem conditionalExpression : Reads before after fails (conditionalExpression reader) := by
  intro p here
  refine (leaf.inherited leaf.binaryExpression here).bind fun node q found => ?_
  exact (leaf.ends found.1).unlessMark (by decide) found

theorem assignmentExpression : Reads before after fails (assignmentExpression reader) := by
  intro p here
  refine .get_bind ?_
  refine (leaf.conditionalExpression here).bind fun node q found => ?_
  refine (leaf.ends found.1).unlessMark (by decide) ?_
  refine (leaf.ends found.1).lookahead_bind fun token _ isMark => ?_
  simp only [isMark, Lexeme.assignmentOperator?]
  exact found

theorem expression : Reads before after fails (expression reader) := by
  intro p here
  have still : p.Still p.opened := ⟨rfl, rfl, rfl, rfl, id, id⟩
  have inner := leaf.assignmentExpression (leaf.before_still here still)
  have read : Meets (isolated (Grammar.assignmentExpression reader)) p
      (fun node q => after node q ∧ q.coverInitialized = p.coverInitialized) fails := by
    refine isolated_settled (inner.imp fun node q found => ⟨found.2, ?_, rfl⟩)
    exact leaf.after_still found.1 ⟨rfl, rfl, rfl, rfl, id, id⟩
  refine read.bind fun node q found => ?_
  exact (leaf.ends found.1).unlessMark (by decide) found

end Leaf

/-! ### What a script does not begin with -/

/-- Words that no statement begins with where they are keywords. -/
def Keyword.barren : List Keyword :=
  .else_ :: Keyword.onlyStrict

variable {word : Keyword}

/-- A keyword that starts no expression is taken and refused. -/
theorem Leaf.of_keyword (reader : Reader)
    (plain : (Lexeme.keyword word).unaryOperator? = none ∧ word ≠ .super ∧ word ≠ .new)
    (other : word ≠ .function ∧ word ≠ .this ∧ word ≠ .class_) :
    Leaf reader (fun p => p.Looks (.keyword word) ∧ p.context.isSome) (fun _ _ => False) anyFault where
  starts here := ⟨_, here.1, rfl, plain.1, by simp [plain.2.1], by simp [plain.2.2]⟩
  context here := here.2
  before_still here still := by
    obtain ⟨token, looked, isWord⟩ := here.1
    exact ⟨⟨token, still.lookahead.trans looked, isWord⟩, still.context here.2⟩
  primary here := by
    refine here.1.lookahead_bind fun token _ isWord => ?_
    simp only [isWord]
    exact (Pairing.keywordExpression_refuses other).imp fun _ _ impossible => impossible.elim
  after_still impossible := impossible.elim
  context_after impossible := impossible.elim
  ends impossible := impossible.elim

theorem Leaf.of_barren (reader : Reader) (member : word ∈ Keyword.barren) :
    Leaf reader (fun p => p.Looks (.keyword word) ∧ p.context.isSome) (fun _ _ => False) anyFault := by
  have plain : ∀ word ∈ Keyword.barren, ((Lexeme.keyword word).unaryOperator? = none ∧
      word ≠ .super ∧ word ≠ .new) ∧ word ≠ .function ∧ word ≠ .this ∧ word ≠ .class_ := by decide
  exact .of_keyword reader (plain word member).1 (plain word member).2

theorem listItem_barren (member : word ∈ Keyword.barren)
    (looks : p.Looks (.keyword word)) (present : p.context.isSome) :
    Meets (listItem reader) p (fun _ _ => False) anyFault := by
  have refused (q : Parser) (still : p.Still q) : Meets (expression reader) q (fun _ _ => False)
      anyFault := by
    have leaf := Leaf.of_barren reader member
    exact (leaf.expression (leaf.before_still ⟨looks, present⟩ still)).imp fun _ _ met => met.1
  -- Each of the words leads to the rule for expression statements.
  simp only [Keyword.barren, Keyword.onlyStrict, List.mem_cons, List.not_mem_nil, or_false] at member
  rcases member with rfl | rfl | rfl | rfl | rfl | rfl | rfl | rfl
  all_goals
    refine looks.lookahead_bind fun token _ isWord => ?_
    simp only [isWord]
    refine looks.lookahead_bind fun token _ isWord => ?_
    simp only [isWord]
    refine .modify_bind ?_
    refine (refused _ ?_).bind fun _ _ impossible => impossible.elim
    exact ⟨rfl, rfl, rfl, rfl, id, id⟩

section

variable {src : Source} {token : Token} {check : Option Token → ParseM Unit} {depth rounds : Nat}

theorem items_barren (member : word ∈ Keyword.barren)
    (coherent : Coherent src p token) (isWord : token.lexeme = .keyword word) (body : List Node) :
    Meets (scriptFrom (readerOf depth) check rounds (body, none)) p (fun _ _ => False) anyFault := by
  cases rounds with
  | zero => trivial
  | succ rounds =>
    refine Meets.bind (Meets.map_iff.mpr (coherent.inside_ite (by simp [isWord]) ?_))
      fun _ _ impossible => impossible
    cases depth with
    | zero => trivial
    | succ depth =>
      have present := Option.isSome_iff_exists.mpr coherent.context
      refine (listItem_barren member ⟨token, coherent.lookahead, isWord⟩ present).bind ?_
      exact fun _ _ impossible => impossible.elim

/-- A script that is read does not begin with the keyword that no statement begins with. -/
theorem script_not_else {body : List Node} (coherent : Coherent src p token)
    (run : scriptFrom (readerOf depth) check rounds ([], some none) p = .ok body q) :
    token.lexeme ≠ .keyword .else_ := by
  intro isElse
  have noString (value : Text) (isOctal : Bool) : ¬ p.Looks (.string value isOctal) := by
    rintro ⟨other, looked, isString⟩
    obtain rfl : token = other := Option.some.inj (coherent.lookahead.symm.trans looked)
    cases isElse.symm.trans isString
  cases rounds with
  | zero => cases run
  | succ rounds =>
    have never : Meets (scriptFrom (readerOf depth) check (rounds + 1) ([], some none)) p
        (fun _ _ => False) anyFault := by
      refine .into ?_
      rw [scriptRound_some, directiveRound_eq]
      refine Meets.map_iff.mpr ((Pairing.stringStatement?_other noString).bind ?_)
      rintro _ _ ⟨rfl, rfl⟩
      exact items_barren (by decide) coherent isElse []
    exact never.of_ok run

end

/-! ### Directives -/

namespace Grammar

/-- The text of one more directive. -/
def prologueRound (reader : Reader) (texts : List Text) : ParseM (List Text ⊕ List Text) := do
  match ← stringStatement? reader with
  | some (_, _, some text) => do
    if text = Text.ofString "use strict" then modify fun p => { p with strict := some true }
    else pure ()
    pure (.inl (texts ++ [text]))
  | _ => pure (.inr texts)

/-- What stands between the quotes of the directives that a program begins with. -/
def programPrologue (reader : Reader) : ParseM (List Text) := do
  peek
  repeated (prologueRound reader) []

/-- Lets no code become strict. -/
def refuseStrict (_ : Option Token) : ParseM Unit :=
  throw .exhausted

variable {body : List Node}

theorem refuseStrict_calm (octal : Option Token) (p : Parser) :
    Meets (refuseStrict octal) p (fun _ q => q = p) anyFault :=
  trivial

theorem refuseOctal_calm (octal : Option Token) (p : Parser) :
    Meets (refuseOctal octal) p (fun _ q => q = p) anyFault := by
  cases octal with
  | none => exact rfl
  | some token => trivial

/-- A round of the directives and what the prologue makes of it. Only the directive of strict code
depends on the check. -/
theorem directiveRound_ok {state : List Node × Option Token}
    {answer : (List Node × Option Token) ⊕ List Node}
    (run : directiveRound reader refuseOctal state p = .ok answer q) :
    (∃ body, answer = .inr body ∧ (∀ texts, prologueRound reader texts p = .ok (.inr texts) q) ∧
      directiveRound reader refuseStrict state p = .ok answer q) ∨ ∃ next text, answer = .inl next ∧
      (∀ texts, prologueRound reader texts p = .ok (.inl (texts ++ [text])) q) ∧
      (text ≠ Text.ofString "use strict" →
        directiveRound reader refuseStrict state p = .ok answer q) := by
  rw [directiveRound_eq] at run ⊢
  obtain ⟨found, p', got, run⟩ := bind_ok_iff.mp run
  -- No string, a string that is no directive, and a directive, of strict code or not.
  rcases found with _ | ⟨token, statement, _ | text⟩
  · cases run
    exact .inl ⟨_, rfl, fun _ => bind_ok_iff.mpr ⟨_, _, got, rfl⟩, bind_ok_iff.mpr ⟨_, _, got, rfl⟩⟩
  · cases run
    exact .inl ⟨_, rfl, fun _ => bind_ok_iff.mpr ⟨_, _, got, rfl⟩, bind_ok_iff.mpr ⟨_, _, got, rfl⟩⟩
  · by_cases isStrict : text = Text.ofString "use strict"
    · simp only [directiveAnswer, if_pos isStrict] at run
      obtain ⟨_, _, changed, run⟩ := bind_ok_iff.mp run
      cases changed
      obtain ⟨_, _, checked, run⟩ := bind_ok_iff.mp run
      cases run
      obtain rfl := (refuseOctal_calm state.2 _).of_ok checked
      refine .inr ⟨_, text, rfl, fun texts => ?_, fun other => absurd isStrict other⟩
      refine bind_ok_iff.mpr ⟨_, _, got, ?_⟩
      simp only [if_pos isStrict]
      rfl
    · simp only [directiveAnswer, if_neg isStrict] at run
      cases run
      refine .inr ⟨_, text, rfl, fun texts => ?_, fun _ => bind_ok_iff.mpr ⟨_, _, got, ?_⟩⟩
      · refine bind_ok_iff.mpr ⟨_, _, got, ?_⟩
        simp only [if_neg isStrict]
        rfl
      · simp only [directiveAnswer, if_neg isStrict]
        rfl

theorem directives_sloppy : ∀ {rounds : Nat} {state : List Node × Option Token} {p : Parser}
    (texts : List Text),
    iterate .exhausted (directiveRound reader refuseOctal) rounds state p = .ok body q →
      ∃ more r, iterate .exhausted (prologueRound reader) rounds texts p = .ok (texts ++ more) r ∧
        (Text.ofString "use strict" ∉ more →
          iterate .exhausted (directiveRound reader refuseStrict) rounds state p = .ok body q) := by
  intro rounds
  induction rounds with
  | zero => exact fun _ run => nomatch run
  | succ rounds ih =>
    intro state p texts run
    obtain ⟨answer, p', begun, run⟩ := bind_ok_iff.mp run
    rcases directiveRound_ok begun with
      ⟨found, rfl, prologue, sloppy⟩ | ⟨next, text, rfl, prologue, sloppy⟩
    · cases run
      refine ⟨[], q, ?_, fun _ => bind_ok_iff.mpr ⟨_, _, sloppy, rfl⟩⟩
      rw [List.append_nil]
      exact bind_ok_iff.mpr ⟨_, _, prologue texts, rfl⟩
    · obtain ⟨more, r, rest, sloppyRest⟩ := ih (texts ++ [text]) run
      refine ⟨text :: more, r, ?_, fun absent => ?_⟩
      · rw [List.append_cons]
        exact bind_ok_iff.mpr ⟨_, _, prologue texts, rest⟩
      · rw [List.mem_cons, not_or] at absent
        exact bind_ok_iff.mpr ⟨_, _, sloppy (Ne.symm absent.1), sloppyRest absent.2⟩

/-- A script is read together with its prologue. Where the directive of strict code is missing there,
it is read with code that lets none become strict, too. -/
theorem scriptBody_sloppy (run : scriptBody reader p = .ok body q) :
    ∃ texts r, repeated (prologueRound reader) [] p = .ok texts r ∧ (Text.ofString "use strict" ∉ texts →
        ∃ rounds, scriptFrom reader refuseStrict rounds ([], some none) p = .ok body q) := by
  rw [scriptBody_eq] at run
  obtain ⟨before, r, directives, items⟩ := bind_ok_iff.mp run
  obtain ⟨_, _, got, directives⟩ := bind_ok_iff.mp directives
  cases got
  obtain ⟨_, _, got, items⟩ := bind_ok_iff.mp items
  cases got
  obtain ⟨texts, s, prologue, sloppy⟩ := directives_sloppy [] directives
  refine ⟨texts, s, bind_ok_iff.mpr ⟨_, _, rfl, prologue⟩, fun absent => ?_⟩
  exact directives_ok (sloppy absent) (items_ok items)

end Grammar

/-- The texts of the directives that a program begins with; there are none where they are not read. -/
def prologue (settings : Settings) (code : Text) : List Text :=
  match deep programPrologue (Parser.begin { settings } code) with
  | .ok texts _ => texts
  | .error _ _ => []

theorem prologue_eq {settings : Settings} {code : Text} {texts : List Text}
    (peeked : peek (Parser.begin { settings } code) = .ok () p)
    (read : repeated (prologueRound (readerFor code)) [] p = .ok texts q) :
    prologue settings code = texts := by
  have run : deep programPrologue (Parser.begin { settings } code) = .ok texts q :=
    bind_ok_iff.mpr ⟨_, _, rfl, bind_ok_iff.mpr ⟨_, _, peeked, read⟩⟩
  unfold prologue
  rw [run]

/-! ### What a script leaves as it was -/

theorem Parse.rescan_quiet : Quiet rescan := by
  refine .bind startMark_quiet fun mark => .bind (.modify fun _ => rfl) fun _ => ?_
  exact .bind regExp_quiet fun _ => .bind drop_quiet fun _ => .pure _

/-- No step of a run touches the settings. -/
theorem Performs.settings {α : Type} {m : ParseM α} {journal : List Fetch}
    (performs : Performs m p journal) : Meets m p (fun _ q => q.settings = p.settings) anyFault := by
  induction performs with
  | pure a p | get p => exact rfl
  | throw fault p => trivial
  | modify calm => exact calm.settings
  | peek | peekFails => exact peek_quiet.settings _
  | lex | lexFails => exact lex_quiet.settings _
  | rescan | rescanFails => exact rescan_quiet.settings _
  | bind run first next ih ih' =>
    refine .into (.of_returns fun a q again => ?_)
    -- The first step has one outcome, the one that the journal records.
    cases run.symm.trans again
    have kept := ih.of_ok run
    exact ih'.imp fun _ _ kept' => kept'.trans kept
  | bindFails run first ih =>
    refine .into (.of_returns fun a q again => ?_)
    cases run.symm.trans again

namespace Grammar

theorem stringStatement?_keeps (restores : Restores reader) : Keeps (stringStatement? reader) := by
  refine .bind inside_keeps fun _ => .ite (.bind lookahead_keeps fun token => ?_) (.pure _)
  split
  · refine .bind (restores.keeps .listItem) fun statement => .bind (isDirective_keeps statement) fun _ => ?_
    exact .ite (.bind source_keeps fun _ => .pure _) (.pure _)
  · exact .pure _

theorem scriptRound_keeps (restores : Restores reader) (state : List Node × Option (Option Token)) :
    Keeps (scriptRound reader refuseStrict state) := by
  obtain ⟨body, phase⟩ := state
  cases phase with
  | none =>
    refine .map _ (.bind inside_keeps fun _ => .ite ?_ (.pure _))
    exact .bind (restores.keeps .listItem) fun _ => .pure _
  | some octal =>
    rw [scriptRound_some, directiveRound_eq]
    refine .map _ (.bind (stringStatement?_keeps restores) fun found => ?_)
    rcases found with _ | ⟨token, statement, _ | text⟩
    · exact .pure _
    · exact .pure _
    · refine .ite (fun p => ?_) (.pure _)
      -- The code would become strict, and the check lets it not go on.
      exact .modify_bind (.into trivial)

theorem scriptFrom_keeps (restores : Restores reader) (rounds : Nat)
    (state : List Node × Option (Option Token)) :
    Keeps (scriptFrom reader refuseStrict rounds state) := by
  intro p
  refine Meets.iterate_returns (fun _ q => p.Agrees q) (fun state q kept => ?_) rounds state p (.refl p)
  refine (scriptRound_keeps restores state q).imp fun answer r kept' => ?_
  cases answer with
  | inl next => exact kept.trans kept'
  | inr body => exact kept.trans kept'

end Grammar

/-- A program without the directive of strict code: it is read by code that lets none become strict,
and it leaves the context of a program. -/
structure Sloppy (settings : Settings) (code : Text) (body : List Node) (p q : Parser) (rounds : Nat) :
    Prop where
  peeked : peek (Parser.begin { settings } code) = .ok () p
  script : scriptFrom (readerFor code) refuseStrict rounds ([], some none) p = .ok body q
  begun : p.context = some {} ∧ p.settings = settings
  context : q.context = some {}
  strict : q.strict = some false
  settings : q.settings = settings

theorem Sloppy.of_parse {settings : Settings} {code : Text} {body : List Node}
    (parsed : parse settings code = .ok (.program body))
    (absent : Text.ofString "use strict" ∉ prologue settings code) :
    ∃ p q rounds, Sloppy settings code body p q rounds := by
  obtain ⟨p, q, body', peeked, script, same⟩ := parse_ok parsed
  cases same
  obtain ⟨texts, r, read, sloppy⟩ := scriptBody_sloppy script
  rw [prologue_eq peeked read] at absent
  obtain ⟨rounds, script'⟩ := sloppy absent
  -- The context and the strictness are kept by the restricted run, the settings by the journal of the run.
  have first := peek_keeps.of_ok peeked
  have rest := (scriptFrom_keeps (readerOf_restores _) rounds ([], some none)).of_ok script'
  have settled := (peek_quiet.settings _).of_ok peeked
  have looked := (peek_lookahead _).of_ok peeked
  obtain ⟨journal, performs⟩ := (scriptBody_logged _ p looked).performs
  have settled' := performs.settings.of_ok script
  exact ⟨p, q, rounds, peeked, script', ⟨first.context, settled⟩, rest.context.trans first.context,
    rest.strict.trans first.strict, settled'.trans settled⟩

end EcmaScript
