import EcmaScript.Proofs.Judgements

/-!
Warrants. Much of what can be said of a whole run depends on its fetches alone: a name in the tree was
an identifier in the lookahead once, and the line in a complaint was a line of the cursor. A warrant says
what is to hold of the tokens and registers of a parser, and has to show only that a fetch makes it hold
and that it covers the complaints. What it says of names and faults then holds of every rule.
-/

namespace EcmaScript

variable {α β : Type}

/-- Conditions on the tokens that a parser keeps, and on its other registers. -/
structure Condition where
  token : Token → Prop
  registers : Parser → Prop

/-- The conditions are met. Besides the lookahead, a parser keeps the token that only a target could
hold. -/
structure Condition.Holds (w : Condition) (p : Parser) : Prop where
  registers : w.registers p
  lookahead : ∀ token, p.lookahead = some token → w.token token
  cover : ∀ token, p.coverInitialized = some token → w.token token

/-- Conditions that every fetch meets again, with what follows from them for names and faults. The
registers they speak of are at most the source, the settings, the positions and the strictness. -/
structure Warrant extends Condition where
  name : Text → Prop
  fault : Fault → Parser → Prop
  named : ∀ {t : Token} {text : Text}, token t → t.lexeme = .identifier text → name text
  noted : ∀ {t : Token} (precedence : Option Nat), token t → token { t with precedence }
  apart : ∀ {p q : Parser}, p.Calm q → q.last = p.last → q.strict = p.strict → registers p → registers q
  stricter : ∀ {p : Parser}, registers p → registers { p with strict := some true }
  restored : ∀ {p q : Parser}, registers p → registers q → registers { q with strict := p.strict }
  relocated : ∀ {p : Parser}, registers p → registers { p with last := p.start }
  lex : ∀ {p : Parser}, toCondition.Holds p → Meets Parse.lex p (fun _ q => toCondition.Holds q) fault
  rescan : ∀ {p : Parser} {t : Token}, toCondition.Holds p → p.lookahead = some t → t.IsSlash →
    Meets Parse.rescan p (fun _ q => toCondition.Holds q) fault
  blames : ∀ {p : Parser} {t : Token} (words : Option Text), registers p → token t →
    fault (p.complaint (some (.ofToken t)) words) p
  complains : ∀ {p : Parser} (words : Text), registers p → fault (p.complaintHere words) p
  illegal : ∀ {p : Parser} (words : Option Text), registers p → fault (p.complaint none words) p
  other : ∀ {p : Parser} {e : Fault}, registers p → (∀ line text, e ≠ .malformed line text) → fault e p

theorem Condition.Holds.calm {w : Warrant} {p q : Parser} (holds : w.Holds p) (calm : p.Calm q)
    (last : q.last = p.last) (strict : q.strict = p.strict)
    (cover : ∀ t, q.coverInitialized = some t → w.token t) : w.Holds q := by
  constructor
  · exact w.apart calm last strict holds.registers
  · intro t found
    -- The lookahead may have been noted to be an operator since.
    obtain ⟨seen, looked, same⟩ := calm.token found
    rw [same]
    exact w.noted _ (holds.lookahead seen looked)
  · exact cover

namespace Warrant

variable {w : Warrant}

/-- What a warrant says of a run: the conditions are met after it, and its fault is warranted. -/
def judgement (w : Warrant) : Judgement where
  toTrees := .among w.name
  known := w.token
  Holds _ := w.Holds
  At _ p m answers := Meets m p (fun a q => answers a ∧ w.Holds q) w.fault
  named := w.named
  lookahead holds found := holds.lookahead _ found
  cover holds found := holds.cover _ found
  bound := False.elim
  pure holds answered := ⟨answered, holds⟩
  bind := by
    intro α β s p m f answers later first next
    apply Meets.into
    unfold Meets at first ⊢
    split
    next a q run =>
      rw [run] at first
      exact next a q run first.1 first.2
    next e q run =>
      rw [run] at first
      exact first
  get holds := ⟨rfl, holds⟩
  changed holds unmoved cover := ⟨trivial, holds.calm unmoved.toCalm unmoved.last unmoved.strict cover⟩
  relocated holds := ⟨trivial, w.relocated holds.registers, holds.lookahead, holds.cover⟩
  lex := by
    intro s p holds
    apply ((w.lex holds).and_returns (Parse.lex_returns p)).imp
    rintro given q ⟨holds', same, -⟩
    exact ⟨same, holds'⟩
  rescan holds looked isSlash := (w.rescan holds looked isSlash).imp fun _ _ holds => ⟨trivial, holds⟩
  other holds other := w.other holds.registers other
  blames := by
    intro α s p t answers words holds known
    cases t with
    | some token => exact w.blames words holds.registers (known token rfl)
    | none => exact w.illegal words holds.registers
  complains words holds := w.complains words holds.registers

open Comparison in
theorem lax (w : Warrant) : w.judgement.comparison.Lax where
  held holds := holds
  anywhere met := met
  changeContext _ := .learn context_upholds fun _ _ => w.judgement.maintains fun _ holds =>
    ⟨trivial, holds.calm ⟨rfl, rfl, rfl, rfl, rfl⟩ rfl rfl holds.cover⟩
  stricter := w.judgement.maintains fun _ holds =>
    ⟨trivial, w.stricter holds.registers, holds.lookahead, holds.cover⟩
  restored known := w.judgement.maintains fun _ holds =>
    ⟨trivial, w.restored known.2.registers holds.registers, holds.lookahead, holds.cover⟩

def discipline (w : Warrant) : Discipline where
  toComparison := w.judgement.comparison
  places := w.judgement.places
  scopes := w.lax.scopes

end Warrant

end EcmaScript
