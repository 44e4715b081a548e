import EcmaScript.Proofs.Context
import EcmaScript.Proofs.OctalEscapes

/-!
The registers that no token changes. What a program may contain is decided by four of them: the
settings, whether the code is strict, whether what was read last is an assignment target, and the token
that only a target could hold. Reading tokens and changing the context is quiet, it leaves these four
alone and a candid token in the lookahead; so only the few steps that write one of them are of interest
where a rule is judged by them.
-/

namespace EcmaScript

variable {α β : Type}

structure Registers where
  settings : Settings
  strict : Option Bool
  assignmentTarget : Option Bool
  coverInitialized : Option Token

def Parser.registers (p : Parser) : Registers :=
  ⟨p.settings, p.strict, p.assignmentTarget, p.coverInitialized⟩

def Parser.Candid (p : Parser) : Prop :=
  ∀ token, p.lookahead = some token → token.Candid

/-- These registers are as they were, and the lookahead is as candid as it was. -/
structure Parser.Undisturbed (p q : Parser) : Prop where
  registers : q.registers = p.registers
  candid : p.Candid → q.Candid

namespace Parser.Undisturbed

variable {p q r : Parser}

theorem refl (p : Parser) : p.Undisturbed p :=
  ⟨rfl, id⟩

theorem trans (first : p.Undisturbed q) (second : q.Undisturbed r) : p.Undisturbed r :=
  ⟨second.registers.trans first.registers, second.candid ∘ first.candid⟩

end Parser.Undisturbed

/-- A computation that leaves these registers as they were. -/
class Quiet (m : ParseM α) : Prop where
  undisturbed : ∀ p, Meets m p (fun _ q => p.Undisturbed q) anyFault

namespace Quiet

theorem pure (a : α) : Quiet (pure a : ParseM α) :=
  ⟨.refl⟩

theorem throw (fault : Fault) : Quiet (throw fault : ParseM α) :=
  ⟨fun _ => trivial⟩

theorem get : Quiet (get : ParseM Parser) :=
  ⟨.refl⟩

theorem modify {change : Parser → Parser}
    (untouched : ∀ p, ((change p).registers, (change p).lookahead) = (p.registers, p.lookahead)) :
    Quiet (modify change : ParseM Unit) := by
  refine ⟨fun p => ?_⟩
  obtain ⟨registers, lookahead⟩ := Prod.mk.inj (untouched p)
  refine ⟨registers, fun candid => ?_⟩
  unfold Parser.Candid
  rw [lookahead]
  exact candid

theorem bind {m : ParseM α} {f : α → ParseM β} (first : Quiet m) (next : ∀ a, Quiet (f a)) :
    Quiet (m >>= f) := by
  refine ⟨fun p => (first.undisturbed p).bind fun a q same => ((next a).undisturbed q).imp fun b r same' => ?_⟩
  exact same.trans same'

theorem ite {c : Prop} [Decidable c] {m n : ParseM α} (yes : Quiet m) (no : Quiet n) :
    Quiet (if c then m else n) := by
  split
  · exact yes
  · exact no

/-- The settings are one of these registers. -/
theorem settings {m : ParseM α} (quiet : Quiet m) (p : Parser) :
    Meets m p (fun _ q => q.settings = p.settings) anyFault :=
  (quiet.undisturbed p).imp fun _ _ same => congrArg Registers.settings same.registers

end Quiet

namespace Parse

instance source_quiet : Quiet source := by
  refine .bind .get fun p => ?_
  cases p.source with
  | some src => exact .pure src
  | none => exact .throw _

instance context_quiet : Quiet context := by
  refine .bind .get fun p => ?_
  cases p.context with
  | some context => exact .pure context
  | none => exact .throw _

instance changeContext_quiet (change : Context → Context) : Quiet (changeContext change) :=
  .bind context_quiet fun _ => .modify fun _ => rfl

instance lookahead_quiet : Quiet lookahead := by
  refine .bind .get fun p => ?_
  cases p.lookahead with
  | some token => exact .pure token
  | none => exact .throw _

instance lastMark_quiet : Quiet lastMark := by
  refine .bind .get fun p => ?_
  cases p.last with
  | some mark => exact .pure mark
  | none => exact .throw _

instance startMark_quiet : Quiet startMark := by
  refine .bind .get fun p => ?_
  cases p.start with
  | some mark => exact .pure mark
  | none => exact .throw _

instance isStrict_quiet : Quiet isStrict :=
  .bind .get fun _ => .pure _

instance inside_quiet : Quiet inside :=
  .bind source_quiet fun _ => .bind startMark_quiet fun _ => .pure _

instance characterAt_quiet (index : Nat) : Quiet (characterAt index) := by
  refine .bind source_quiet fun src => ?_
  cases src[index]? with
  | some c => exact .pure c
  | none => exact .throw _

instance afterLineBreak_quiet : Quiet afterLineBreak :=
  .bind .get fun _ => .pure _

instance complainOf_quiet (token : Option Token) (message : Option Message) :
    Quiet (complainOf token message : ParseM α) :=
  .bind .get fun _ => .throw _

instance unexpected_quiet (token : Token) : Quiet (unexpected token : ParseM α) :=
  complainOf_quiet _ _

instance complain_quiet (message : Message) (values : List Text) :
    Quiet (complain message values : ParseM α) := by
  unfold complain
  cases Text.formatExactly? values message.text with
  | some words => exact .bind .get fun _ => .throw _
  | none => exact .throw _

/-! ### Tokens -/

theorem candid_of_read {src : Source} {strict : Bool} {lineStart : Option Nat} {between after : Cursor}
    {token : Token} (read : Lexer.token src strict lineStart between = .ok token after) {p : Parser}
    {last : Mark} : (p.fetched last between after token).Candid := by
  rintro _ ⟨⟩
  exact (Lexer.token_candid _ _).of_ok read

instance lex_quiet : Quiet lex := by
  refine ⟨fun p => (lex_fetches p).imp ?_⟩
  rintro _ _ ⟨-, src, between, after, token, read, rfl⟩
  exact ⟨rfl, fun _ => candid_of_read read⟩

instance peek_quiet : Quiet peek := by
  refine ⟨fun p => (peek_fetches p).imp ?_⟩
  rintro _ _ ⟨src, between, after, token, read, rfl⟩
  exact ⟨rfl, fun _ => candid_of_read read⟩

instance take_quiet : Quiet take := by
  refine .bind lex_quiet fun token => ?_
  cases token with
  | some token => exact .pure token
  | none => exact .throw _

instance drop_quiet : Quiet drop :=
  .bind lex_quiet fun _ => .pure _

instance regExp_quiet : Quiet regExp := by
  refine ⟨fun p => (regExp_fetches p).imp ?_⟩
  rintro _ _ ⟨_, _, _, -, rfl⟩
  exact ⟨rfl, fun _ => nofun⟩

instance atMark_quiet (mark : Punctuator) : Quiet (atMark mark) :=
  .bind lookahead_quiet fun _ => .pure _

instance atKeyword_quiet (word : Keyword) : Quiet (atKeyword word) :=
  .bind lookahead_quiet fun _ => .pure _

instance expect_quiet (mark : Punctuator) : Quiet (expect mark) :=
  .bind take_quiet fun token => .ite (.pure _) (unexpected_quiet token)

instance expectKeyword_quiet (word : Keyword) : Quiet (expectKeyword word) :=
  .bind take_quiet fun token => .ite (.pure _) (unexpected_quiet token)

instance consumeSemicolon_quiet : Quiet consumeSemicolon := by
  refine .bind source_quiet fun src => .bind startMark_quiet fun mark => .ite drop_quiet ?_
  refine .bind (atMark_quiet _) fun _ => .ite drop_quiet ?_
  refine .bind afterLineBreak_quiet fun _ => .ite (.pure _) ?_
  refine .bind (.modify fun _ => rfl) fun _ => .bind lookahead_quiet fun token => ?_
  exact .ite (.pure _) (unexpected_quiet token)

end Parse

namespace Grammar

open Parse

/-! ### Rules that read tokens only -/

instance bindingName_quiet : Quiet bindingName := by
  refine .bind take_quiet fun token => ?_
  split
  · exact .pure _
  · exact .bind isStrict_quiet fun _ => .ite (complainOf_quiet _ _) (unexpected_quiet _)
  · exact unexpected_quiet _

instance pattern_quiet : Quiet pattern := by
  refine .bind lookahead_quiet fun token => ?_
  split
  · exact bindingName_quiet
  · exact .throw _
  · exact .throw _
  · exact unexpected_quiet _

instance refuseOctal_quiet (octal : Option Token) : Quiet (refuseOctal octal) := by
  cases octal with
  | some token => exact complainOf_quiet _ _
  | none => exact .pure _

instance binaryOperator?_quiet : Quiet binaryOperator? :=
  .bind lookahead_quiet fun _ => .bind context_quiet fun _ => .pure _

/-- The note on an operator does not change its spelling. -/
instance notePrecedence_quiet (operator : BinaryOperator) : Quiet (notePrecedence operator) := by
  refine ⟨fun p => ⟨rfl, fun candid token found => ?_⟩⟩
  obtain ⟨seen, looked, rfl⟩ := Option.map_eq_some_iff.mp found
  exact { candid seen looked with }

instance checkJump_quiet (allowed : Context → Bool) (message : Message) :
    Quiet (checkJump allowed message) :=
  .bind context_quiet fun _ => .ite (.pure _) (complain_quiet _ _)

instance jumpLabel?_quiet : Quiet jumpLabel? := by
  refine .bind lookahead_quiet fun token => ?_
  split
  · refine .bind bindingName_quiet fun name => .bind context_quiet fun _ => ?_
    exact .ite (.pure _) (complain_quiet _ _)
  · exact .pure _

instance nameFollows_quiet : Quiet nameFollows := by
  refine .bind lastMark_quiet fun mark => .bind (characterAt_quiet _) fun _ => .ite ?_ (.pure _)
  exact .bind (characterAt_quiet _) fun _ => .pure _

end Grammar

end EcmaScript
