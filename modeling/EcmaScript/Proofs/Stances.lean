import Mathlib.Order.Defs.PartialOrder
import EcmaScript.Proofs.Journal
import EcmaScript.Proofs.Registers

/-!
What the registers of the cover grammar say of what was read. A stance is a pair of conditions: one that
holds whenever the last expression counts as an assignment target, and one that holds whenever no token
was met that only a target could hold. `Yields r σ m ends` says of a computation that starts in the
stance `σ` which answers it may give and which stance it leaves. Quiet steps and parts read on their own
keep the stance, and most rules are made of these.
-/

namespace EcmaScript

open Parse

variable {α β : Type}

structure Stance where
  target : Prop
  settled : Prop

/-- A smaller stance knows more. -/
instance : Preorder Stance where
  le τ σ := (τ.target → σ.target) ∧ (τ.settled → σ.settled)
  le_refl _ := ⟨id, id⟩
  le_trans _ _ _ first second := ⟨second.1 ∘ first.1, second.2 ∘ first.2⟩

/-- The parser is in the stance `σ` and in code under `r`. -/
structure Parser.Stands (r : Regime) (σ : Stance) (p : Parser) : Prop where
  strict : r.strict → p.strict = some true
  pyimport : p.settings.pyimport = true → r.pyimport
  target : p.assignmentTarget = some true → σ.target
  settled : p.coverInitialized = none → σ.settled
  candid : p.Candid

namespace Parser.Stands

variable {r : Regime} {σ τ : Stance} {p q : Parser}

theorem congr (stands : p.Stands r σ) (same : p.Undisturbed q) : q.Stands r σ := by
  have registers := same.registers
  simp only [Parser.registers, Registers.mk.injEq] at registers
  obtain ⟨settings, strict, target, cover⟩ := registers
  refine ⟨?_, ?_, ?_, ?_, same.candid stands.candid⟩
  · rw [strict]
    exact stands.strict
  · rw [settings]
    exact stands.pyimport
  · rw [target]
    exact stands.target
  · rw [cover]
    exact stands.settled

theorem isStrict (stands : p.Stands r σ) (strict : r.strict) : p.isStrict = true := by
  simp [Parser.isStrict, stands.strict strict]

/-- A part starts with open registers, about which nothing is said. -/
theorem opened (stands : p.Stands r σ) : p.opened.Stands r ⟨True, True⟩ :=
  ⟨stands.strict, stands.pyimport, fun _ => trivial, fun _ => trivial, stands.candid⟩

end Parser.Stands

/-- Started in the stance `σ`, the computation answers, if at all, such that `ends` holds of the answer
and of a stance that it leaves. -/
def Yields (r : Regime) (σ : Stance) (m : ParseM α) (ends : α → Stance → Prop) : Prop :=
  ∀ p : Parser, p.Stands r σ → Meets m p (fun a q => ∃ τ, ends a τ ∧ q.Stands r τ) anyFault

/-- The computation keeps the stance. -/
def Steady (r : Regime) (m : ParseM α) (answers : α → Prop) : Prop :=
  ∀ σ, Yields r σ m fun a τ => answers a ∧ τ = σ

/-- It does not matter in which stance the computation starts and ends. -/
def Loose (r : Regime) (m : ParseM α) (answers : α → Prop) : Prop :=
  ∀ σ, Yields r σ m fun a _ => answers a

variable {body : α → ParseM (α ⊕ β)}

namespace Yields

variable {r : Regime} {σ τ : Stance} {m : ParseM α} {f : α → ParseM β}
variable {ends : α → Stance → Prop} {later : β → Stance → Prop} {answers : α → Prop}

theorem pure {a : α} (holds : ends a σ) : Yields r σ (pure a) ends :=
  fun _ stands => ⟨σ, holds, stands⟩

theorem throw (fault : Fault) : Yields r σ (throw fault) ends :=
  fun _ _ => trivial

theorem complainOf (token : Option Token) (message : Option Message) :
    Yields r σ (Parse.complainOf token message) ends :=
  fun _ _ => trivial

theorem unexpected (token : Token) : Yields r σ (Parse.unexpected token) ends :=
  complainOf _ _

theorem complain (message : Message) (values : List Text) :
    Yields r σ (Parse.complain message values) ends := by
  intro p _
  unfold Parse.complain
  cases Text.formatExactly? values message.text with
  | some words => trivial
  | none => trivial

theorem imp {wider : α → Stance → Prop} (met : Yields r σ m ends)
    (weaker : ∀ a τ, ends a τ → wider a τ) : Yields r σ m wider :=
  fun p stands => (met p stands).imp fun a _ ⟨τ, holds, stands⟩ => ⟨τ, weaker a τ holds, stands⟩

theorem bind (first : Yields r σ m ends) (next : ∀ a τ, ends a τ → Yields r τ (f a) later) :
    Yields r σ (m >>= f) later := by
  intro p stands
  refine (first p stands).bind fun a q met => ?_
  obtain ⟨τ, holds, stands⟩ := met
  exact next a τ holds q stands

/-- A quiet step keeps the stance. -/
theorem quietly (quiet : Quiet m) (next : ∀ a, Yields r σ (f a) later) : Yields r σ (m >>= f) later :=
  fun p stands => (quiet.undisturbed p).bind fun a q same => next a q (stands.congr same)

theorem after [quiet : Quiet m] (next : ∀ a, Yields r σ (f a) later) : Yields r σ (m >>= f) later :=
  quietly quiet next

/-- The answer of the step is not used. -/
theorem skip [Quiet m] {n : ParseM β} (rest : Yields r σ n later) : Yields r σ (m >>= fun _ => n) later :=
  after fun _ => rest

theorem step (steady : Steady r m answers) (next : ∀ a, answers a → Yields r σ (f a) later) :
    Yields r σ (m >>= f) later := by
  apply (steady σ).bind
  rintro a _ ⟨answered, rfl⟩
  exact next a answered

theorem get {f : Parser → ParseM β} (next : ∀ p : Parser, p.Stands r σ → Yields r σ (f p) later) :
    Yields r σ (get >>= f) later :=
  fun p stands => .get_bind (next p stands p stands)

theorem isStrict {f : Bool → ParseM β}
    (next : ∀ strict, (r.strict → strict = true) → Yields r σ (f strict) later) :
    Yields r σ (Parse.isStrict >>= f) later := by
  unfold Parse.isStrict
  rw [bind_assoc]
  exact .get fun p stands => next p.isStrict stands.isStrict

theorem lookahead {f : Token → ParseM β} (next : ∀ token, token.Candid → Yields r σ (f token) later) :
    Yields r σ (Parse.lookahead >>= f) later := by
  intro p stands
  refine (lookahead_returns p).bind fun token q seen => ?_
  obtain ⟨rfl, found⟩ := seen
  exact next token (stands.candid token found) q stands

theorem take {f : Token → ParseM β} (next : ∀ token, token.Candid → Yields r σ (f token) later) :
    Yields r σ (Parse.take >>= f) later := by
  intro p stands
  have taken : Meets Parse.take p (fun token _ => token.Candid) anyFault := by
    refine (lex_returns p).bind fun given q met => ?_
    cases given with
    | some token => exact stands.candid token met.1.symm
    | none => trivial
  refine ((take_quiet.undisturbed p).and_returns taken).bind fun token q met => ?_
  exact next token met.2 q (stands.congr met.1)

theorem modify {change : Parser → Parser} {f : Unit → ParseM β}
    (changes : ∀ p : Parser, p.Stands r σ → (change p).Stands r τ)
    (next : Yields r τ (f ()) later) : Yields r σ (modify change >>= f) later :=
  fun p stands => .modify_bind (next _ (changes p stands))

theorem map {g : α → β} (met : Yields r σ m fun a τ => later (g a) τ) : Yields r σ (g <$> m) later :=
  fun p stands => Meets.map_iff.mpr (met p stands)

theorem ite {b : Prop} [Decidable b] {n : ParseM α} (yes : b → Yields r σ m ends)
    (no : ¬b → Yields r σ n ends) : Yields r σ (if b then m else n) ends := by
  split
  next holds => exact yes holds
  next fails => exact no fails

/-- A quiet test decides how to go on. -/
theorem fork {test : ParseM Bool} [Quiet test] {n : ParseM α} (yes : Yields r σ m ends)
    (no : Yields r σ n ends) : Yields r σ (test >>= fun b => if b then m else n) ends :=
  .after fun _ => .ite (fun _ => yes) fun _ => no

theorem repeated (holds : α → Stance → Prop)
    (round : ∀ a σ, holds a σ → Yields r σ (body a) (Sum.elim holds later)) {a : α}
    (start : holds a σ) : Yields r σ (Parse.repeated body a) later := by
  intro p stands
  refine repeated_returns (fun a q => ∃ τ, holds a τ ∧ q.Stands r τ) ?_ ⟨σ, start, stands⟩
  rintro a q ⟨τ, held, stands⟩
  refine (round a τ held q stands).imp fun answer q met => ?_
  cases answer <;> exact met

theorem collected {body : α → ParseM (α ⊕ α)} (holds : α → Stance → Prop)
    (round : ∀ a σ, holds a σ → Yields r σ (body a) (Sum.elim holds holds)) {a : α}
    (start : holds a σ) : Yields r σ (Parse.repeated body a) holds :=
  repeated holds round start

/-! ### Registers of the cover grammar -/

theorem expressionOnly {f : Unit → ParseM β} (next : Yields r ⟨False, σ.settled⟩ (f ()) later) :
    Yields r σ (Parse.expressionOnly >>= f) later := by
  refine .modify (fun p stands => ?_) next
  exact ⟨stands.strict, stands.pyimport, nofun, stands.settled, stands.candid⟩

theorem inherited (reads : Yields r ⟨True, True⟩ m ends) :
    Yields r σ (Parse.inherited m) fun a υ => (∃ τ, ends a τ ∧ υ ≤ τ) ∧ υ ≤ σ := by
  intro p stands
  refine inherited_iff.mpr ((reads p.opened stands.opened).imp fun a q met => ?_)
  obtain ⟨τ, holds, ended⟩ := met
  -- Both registers are joined: each speaks for the part and for what came before it.
  refine ⟨⟨τ.target ∧ σ.target, τ.settled ∧ σ.settled⟩, ⟨⟨τ, holds, ?_⟩, ?_⟩, ?_⟩
  · exact ⟨And.left, And.left⟩
  · exact ⟨And.right, And.right⟩
  · refine ⟨ended.strict, ended.pyimport, fun isTarget => ?_, fun isSettled => ?_, ended.candid⟩
    · by_cases inner : q.assignmentTarget = some true
      · simp only [Parse.both, if_pos inner] at isTarget
        exact ⟨ended.target inner, stands.target isTarget⟩
      · simp only [Parse.both, if_neg inner] at isTarget
        exact absurd isTarget inner
    · obtain ⟨outer, inner⟩ := Option.or_eq_none_iff.mp isSettled
      exact ⟨ended.settled inner, stands.settled outer⟩

end Yields

namespace Steady

variable {r : Regime} {m : ParseM α} {answers : α → Prop}

theorem loose (steady : Steady r m answers) : Loose r m answers :=
  fun σ => (steady σ).imp fun _ _ met => met.1

theorem map {g : α → β} {answers : β → Prop} (steady : Steady r m fun a => answers (g a)) :
    Steady r (g <$> m) answers :=
  fun σ => .map (steady σ)

theorem isolated (reads : Yields r ⟨True, True⟩ m fun a τ => τ.settled → answers a) :
    Steady r (Parse.isolated m) answers := by
  intro σ p stands
  refine isolated_meets ((reads p.opened stands.opened).imp fun a q met absent => ?_)
    fun _ _ => trivial
  obtain ⟨τ, holds, ended⟩ := met
  refine ⟨σ, ⟨holds (ended.settled absent), rfl⟩, ?_⟩
  exact ⟨ended.strict, ended.pyimport, stands.target, stands.settled, ended.candid⟩

theorem isolated_of_loose (loose : Loose r m answers) : Steady r (Parse.isolated m) answers :=
  isolated ((loose _).imp fun _ _ answered _ => answered)

theorem repeated {answers : β → Prop} (holds : α → Prop)
    (round : ∀ a, holds a → Steady r (body a) (Sum.elim holds answers)) {a : α} (start : holds a) :
    Steady r (Parse.repeated body a) answers := by
  intro σ
  refine .repeated (fun a τ => holds a ∧ τ = σ) ?_ ⟨start, rfl⟩
  rintro a _ ⟨held, rfl⟩
  refine (round a held _).imp fun answer τ met => ?_
  cases answer <;> exact met

theorem collected {body : α → ParseM (α ⊕ α)} (holds : α → Prop)
    (round : ∀ a, holds a → Steady r (body a) (Sum.elim holds holds)) {a : α} (start : holds a) :
    Steady r (Parse.repeated body a) holds :=
  repeated holds round start

end Steady

theorem Loose.repeated {r : Regime} {answers : β → Prop} (holds : α → Prop)
    (round : ∀ a, holds a → Loose r (body a) (Sum.elim holds answers)) {a : α} (start : holds a) :
    Loose r (Parse.repeated body a) answers := by
  intro σ
  refine .repeated (fun a _ => holds a) (fun a τ held => ?_) start
  refine (round a held τ).imp fun answer _ met => ?_
  cases answer <;> exact met

end EcmaScript
