import EcmaScript.Grammar.Rules
import EcmaScript.Proofs.Fetching

/-!
Rules leave the context of a parser as they found it. Between its start and its end a rule changes
what the enclosing constructs allow, eight registers in all, and has to put each of them back on
every path on which it answers. `Keeps` says that it does; it is closed under everything rules are
made of, so that only the few rules that touch the context need an argument of their own.
-/

namespace EcmaScript

variable {α β : Type}

theorem Parse.repeated_returns {body : α → ParseM (α ⊕ β)} {after : β → Parser → Prop}
    (holds : α → Parser → Prop)
    (round : ∀ a p, holds a p → Meets (body a) p (Sum.elim holds after) anyFault)
    {a : α} {p : Parser} (holds_a : holds a p) : Meets (Parse.repeated body a) p after anyFault :=
  .get_bind (Meets.iterate_returns holds round _ a p holds_a)

/-- Context and strictness of `q` are those of `p`. -/
structure Parser.Agrees (p q : Parser) : Prop where
  context : q.context = p.context
  strict : q.strict = p.strict

namespace Parser.Agrees

variable {p q r : Parser}

theorem refl (p : Parser) : p.Agrees p :=
  ⟨rfl, rfl⟩

theorem trans (first : p.Agrees q) (second : q.Agrees r) : p.Agrees r :=
  ⟨second.context.trans first.context, second.strict.trans first.strict⟩

end Parser.Agrees

/-- A computation that, whenever it answers, leaves context and strictness as they were. -/
def Keeps (m : ParseM α) : Prop :=
  ∀ p, Meets m p (fun _ q => p.Agrees q) anyFault

namespace Keeps

theorem of_ok {m : ParseM α} {p q : Parser} {a : α} (keeps : Keeps m) (run : m p = .ok a q) :
    p.Agrees q := by
  have kept := (keeps p).of_ok run
  exact kept

theorem pure (a : α) : Keeps (pure a : ParseM α) :=
  fun p => .refl p

theorem throw (fault : Fault) : Keeps (throw fault : ParseM α) :=
  fun _ => trivial

theorem get : Keeps (get : ParseM Parser) :=
  fun p => .refl p

theorem bind {m : ParseM α} {f : α → ParseM β} (first : Keeps m) (next : ∀ a, Keeps (f a)) :
    Keeps (m >>= f) := by
  intro p
  refine (first p).bind fun a q kept => (next a q).imp fun b r kept' => ?_
  exact kept.trans kept'

theorem map {m : ParseM α} (f : α → β) (keeps : Keeps m) : Keeps (f <$> m) :=
  fun p => Meets.map_iff.mpr (keeps p)

theorem ite {c : Prop} [Decidable c] {m n : ParseM α} (yes : Keeps m) (no : Keeps n) :
    Keeps (if c then m else n) := by
  split
  · exact yes
  · exact no

theorem modify {change : Parser → Parser} (untouched : ∀ p : Parser, p.Agrees (change p)) :
    Keeps (modify change : ParseM Unit) :=
  untouched

end Keeps

def Parser.opened (p : Parser) : Parser :=
  { p with bindingElement := some true, assignmentTarget := some true, coverInitialized := none }

namespace Parse

/-! ### Registers and complaints -/

theorem source_keeps : Keeps source := by
  refine .bind .get fun p => ?_
  cases p.source with
  | some src => exact .pure src
  | none => exact .throw _

/-- The context, where there is one, and nothing else is touched. -/
theorem context_returns (p : Parser) :
    Meets context p (fun outer q => q = p ∧ p.context = some outer) anyFault := by
  unfold context
  refine .get_bind ?_
  split
  next outer found => exact ⟨rfl, found⟩
  next => trivial

theorem changeContext_returns (change : Context → Context) (p : Parser) :
    Meets (changeContext change) p (fun _ q =>
      ∃ outer, p.context = some outer ∧ q.context = some (change outer) ∧ q.strict = p.strict)
      anyFault := by
  refine (context_returns p).bind fun outer q found => ?_
  obtain ⟨rfl, found⟩ := found
  exact ⟨outer, found, rfl, rfl⟩

theorem changeContext_lookahead (change : Context → Context) (p : Parser) :
    Meets (changeContext change) p (fun _ q => q.lookahead = p.lookahead) anyFault := by
  refine (context_returns p).bind fun outer q found => ?_
  obtain ⟨rfl, -⟩ := found
  exact rfl

theorem lookahead_returns (p : Parser) :
    Meets lookahead p (fun token q => q = p ∧ p.lookahead = some token) anyFault := by
  unfold lookahead
  refine .get_bind ?_
  split
  next token found => exact ⟨rfl, found⟩
  next => trivial

theorem lookahead_keeps : Keeps lookahead := by
  refine .bind .get fun p => ?_
  cases p.lookahead with
  | some token => exact .pure token
  | none => exact .throw _

theorem startMark_keeps : Keeps startMark := by
  refine .bind .get fun p => ?_
  cases p.start with
  | some mark => exact .pure mark
  | none => exact .throw _

theorem inside_keeps : Keeps inside :=
  .bind source_keeps fun _ => .bind startMark_keeps fun _ => .pure _

theorem complainOf_keeps (token : Option Token) (message : Option Message) :
    Keeps (complainOf token message : ParseM α) :=
  .bind .get fun _ => .throw _

theorem unexpected_keeps (token : Token) : Keeps (unexpected token : ParseM α) :=
  complainOf_keeps _ _

theorem complain_never {message : Message} {values : List Text} (p : Parser) :
    Meets (complain message values : ParseM α) p (fun _ _ => False) anyFault := by
  unfold complain
  cases Text.formatExactly? values message.text <;> trivial

theorem unsupported_keeps (feature : String) : Keeps (unsupported feature : ParseM α) :=
  .throw _

/-! ### Tokens -/

theorem lex_keeps : Keeps lex := by
  refine fun p => (lex_fetches p).imp ?_
  rintro _ _ ⟨-, _, _, _, _, -, rfl⟩
  exact ⟨rfl, rfl⟩

theorem peek_keeps : Keeps peek := by
  refine fun p => (peek_fetches p).imp ?_
  rintro _ _ ⟨_, _, _, _, -, rfl⟩
  exact ⟨rfl, rfl⟩

theorem take_keeps : Keeps take := by
  refine .bind lex_keeps fun token => ?_
  cases token with
  | some token => exact .pure token
  | none => exact .throw _

theorem drop_keeps : Keeps drop :=
  .bind lex_keeps fun _ => .pure _

theorem regExp_keeps : Keeps regExp := by
  refine fun p => (regExp_fetches p).imp ?_
  rintro _ _ ⟨_, _, _, -, rfl⟩
  exact ⟨rfl, rfl⟩

theorem atMark_keeps (mark : Punctuator) : Keeps (atMark mark) :=
  .bind lookahead_keeps fun _ => .pure _

theorem expect_keeps (mark : Punctuator) : Keeps (expect mark) :=
  .bind take_keeps fun token => .ite (.pure _) (unexpected_keeps token)

theorem expectKeyword_keeps (word : Keyword) : Keeps (expectKeyword word) :=
  .bind take_keeps fun token => .ite (.pure _) (unexpected_keeps token)

/-! ### Cover grammar -/

section

variable {part : ParseM α} {p : Parser} {after : α → Parser → Prop} {fails : Fault → Parser → Prop}

theorem isolated_meets
    (reads : Meets part p.opened (fun a q => q.coverInitialized = none → after a { q with
      bindingElement := p.bindingElement
      assignmentTarget := p.assignmentTarget
      coverInitialized := p.coverInitialized }) fails)
    (refused : ∀ (q : Parser) token, fails (q.complaint (some (.ofToken token)) none) q) :
    Meets (isolated part) p after fails := by
  refine .get_bind (.modify_bind ?_)
  refine Meets.bind reads fun a q met => .get_bind ?_
  split
  next token _ => exact refused q token
  next absent => exact met absent

theorem isolated_settled
    (reads : Meets part p.opened (fun a q => q.coverInitialized = none ∧ after a { q with
      bindingElement := p.bindingElement
      assignmentTarget := p.assignmentTarget
      coverInitialized := p.coverInitialized }) fails) : Meets (isolated part) p after fails := by
  refine .get_bind (.modify_bind ?_)
  refine Meets.bind reads fun a q met => .get_bind ?_
  simp only [met.1]
  exact met.2

theorem inherited_iff : Meets (inherited part) p after fails ↔
    Meets part p.opened (fun a q => after a { q with
      bindingElement := both q.bindingElement p.bindingElement
      assignmentTarget := both q.assignmentTarget p.assignmentTarget
      coverInitialized := p.coverInitialized.or q.coverInitialized }) fails := by
  unfold inherited
  rw [Meets.bind_iff, Meets.get_iff, Meets.bind_iff]
  exact Meets.bind_iff

end

theorem isolated_keeps {part : ParseM α} (keeps : Keeps part) : Keeps (isolated part) := by
  intro p
  refine isolated_meets ((keeps p.opened).imp fun a q agrees _ => ?_) fun _ _ => trivial
  exact ⟨agrees.context, agrees.strict⟩

end Parse

end EcmaScript
