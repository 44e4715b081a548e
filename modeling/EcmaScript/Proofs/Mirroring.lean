import EcmaScript.Proofs.Fetching
import EcmaScript.Proofs.Scanning

/-!
Two runs side by side. One computation mirrors another if it answers wherever the other one does,
with an answer and a state that stand in a given relation to the other's; it may only run out of
rounds. What is known of the run on the left is thus carried over to the one on the right.
-/

namespace EcmaScript

section

variable {ε σ τ α β γ δ : Type}

/-- Where `m` answers from `s`, so does `n` from `t`, and the outcomes are alike. -/
def Mirrors (spent : ε) (m : EStateM ε σ α) (n : EStateM ε τ γ) (s : σ) (t : τ)
    (alike : α → σ → γ → τ → Prop) : Prop :=
  ∀ a s', m s = .ok a s' → Meets n t (alike a s') (only spent)

variable {body' : γ → EStateM ε τ (γ ⊕ δ)}
variable {body : α → EStateM ε σ (α ⊕ β)}

namespace Mirrors

variable {spent : ε} {m m' : EStateM ε σ α} {n n' : EStateM ε τ γ} {s : σ} {t : τ}
variable {f : α → EStateM ε σ β} {g : γ → EStateM ε τ δ}
variable {alike wider : α → σ → γ → τ → Prop} {later : β → σ → δ → τ → Prop}

theorem pure {a : α} {b : γ} (holds : alike a s b t) :
    Mirrors spent (pure a : EStateM ε σ α) (pure b : EStateM ε τ γ) s t alike := by
  intro a' s' run
  cases run
  exact holds

/-- A computation that gives no answer is mirrored by any other. -/
theorem of_never (fails : Meets m s (fun _ _ => False) anyFault) : Mirrors spent m n s t alike := by
  intro a s' run
  have impossible := fails.of_ok run
  exact impossible.elim

theorem throw {e : ε} : Mirrors spent (throw e : EStateM ε σ α) n s t alike :=
  .of_never trivial

theorem of_pure {b : γ} (met : Meets m s (fun a s' => alike a s' b t) anyFault) :
    Mirrors spent m (Pure.pure b : EStateM ε τ γ) s t alike := by
  intro a s' run
  have holds := met.of_ok run
  exact holds

theorem imp (mirrors : Mirrors spent m n s t alike)
    (weaker : ∀ a s' b t', alike a s' b t' → wider a s' b t') : Mirrors spent m n s t wider :=
  fun a s' run => (mirrors a s' run).imp fun b t' met => weaker a s' b t' met

theorem bind (first : Mirrors spent m n s t alike)
    (next : ∀ a s' b t', alike a s' b t' → Mirrors spent (f a) (g b) s' t' later) :
    Mirrors spent (m >>= f) (n >>= g) s t later := by
  intro c s'' run
  obtain ⟨a, s', begun, run⟩ := bind_ok_iff.mp run
  exact (first a s' begun).bind fun b t' met => next a s' b t' met c s'' run

theorem agree {n : EStateM ε τ α} {g : α → EStateM ε τ δ} {related : α → σ → τ → Prop}
    (first : Mirrors spent m n s t fun a s' b t' => a = b ∧ related a s' t')
    (next : ∀ a s' t', related a s' t' → Mirrors spent (f a) (g a) s' t' later) :
    Mirrors spent (m >>= f) (n >>= g) s t later := by
  refine first.bind ?_
  rintro a s' _ t' ⟨rfl, met⟩
  exact next a s' t' met

theorem and_left {known : α → σ → Prop} (mirrors : Mirrors spent m n s t alike)
    (knows : Meets m s known anyFault) :
    Mirrors spent m n s t fun a s' b t' => alike a s' b t' ∧ known a s' := by
  intro a s' run
  have also : known a s' := by
    have met := knows.of_ok run
    exact met
  exact (mirrors a s' run).imp fun b t' met => ⟨met, also⟩

theorem get_bind {f : σ → EStateM ε σ β} {g : τ → EStateM ε τ δ}
    (next : Mirrors spent (f s) (g t) s t later) : Mirrors spent (get >>= f) (get >>= g) s t later :=
  fun c s' run => .get_bind (next c s' run)

theorem modify_bind {f : Unit → EStateM ε σ β} {g : Unit → EStateM ε τ δ} {h : σ → σ} {k : τ → τ}
    (next : Mirrors spent (f ()) (g ()) (h s) (k t) later) :
    Mirrors spent (modify h >>= f) (modify k >>= g) s t later :=
  fun c s' run => .modify_bind (next c s' run)

theorem modify {h : σ → σ} {k : τ → τ} {alike : Unit → σ → Unit → τ → Prop}
    (holds : alike () (h s) () (k t)) :
    Mirrors spent (modify h : EStateM ε σ Unit) (modify k : EStateM ε τ Unit) s t alike := by
  intro a s' run
  cases run
  exact holds

theorem map {f : α → β} {g : γ → δ}
    (mirrors : Mirrors spent m n s t fun a s' b t' => later (f a) s' (g b) t') :
    Mirrors spent (f <$> m) (g <$> n) s t later := by
  rw [← bind_pure_comp, ← bind_pure_comp]
  exact mirrors.bind fun a s' b t' met => .pure met

theorem ite {c : Prop} [Decidable c] (yes : c → Mirrors spent m n s t alike)
    (no : ¬c → Mirrors spent m' n' s t alike) :
    Mirrors spent (if c then m else m') (if c then n else n') s t alike := by
  split
  next holds => exact yes holds
  next fails => exact no fails

theorem ite_iff {c d : Prop} [Decidable c] [Decidable d] (same : c ↔ d)
    (yes : c → Mirrors spent m n s t alike) (no : ¬c → Mirrors spent m' n' s t alike) :
    Mirrors spent (if c then m else m') (if d then n else n') s t alike := by
  by_cases holds : c
  · rw [if_pos holds, if_pos (same.mp holds)]
    exact yes holds
  · rw [if_neg holds, if_neg (mt same.mpr holds)]
    exact no holds

/-- Both rounds go on in the same way, or both loops end. -/
def Onward (holds : α → σ → γ → τ → Prop) (alike : β → σ → δ → τ → Prop) :
    α ⊕ β → σ → γ ⊕ δ → τ → Prop
  | .inl a, s, .inl b, t => holds a s b t
  | .inr a, s, .inr b, t => alike a s b t
  | _, _, _, _ => False

/-- A loop on the right that outlasts the one on the left. A round on the left may be one of its own
or go with a round on the right; once the left loop ends, what the right one does from there on is
known. The last state on the left may be taken from elsewhere. -/
theorem iterate_onto {spent' : ε} (holds : α → σ → γ → τ → Prop) {known : β → σ → Prop}
    (onward : ∀ a s b t next s', holds a s b t → body a s = .ok (.inl next) s' →
      holds next s' b t ∨ Meets (body' b) t (fun answer t' => ∃ next', answer = .inl next' ∧
        holds next s' next' t') (only spent))
    (finish : ∀ a s b t found s', holds a s b t → body a s = .ok (.inr found) s' →
      known found s' → ∀ rounds, Meets (EcmaScript.iterate spent body' rounds b) t
        (later found s') (only spent)) :
    ∀ (rounds rounds' : Nat) (a : α) (s : σ) (b : γ) (t : τ) (found : β) (s' : σ), holds a s b t →
      EcmaScript.iterate spent' body rounds a s = .ok found s' → known found s' →
      Meets (EcmaScript.iterate spent body' rounds' b) t (later found s') (only spent) := by
  intro rounds
  induction rounds with
  | zero => exact fun _ _ _ _ _ _ _ _ run => nomatch run
  | succ rounds ih =>
    intro rounds' a s b t found s'' holds_ab run is_known
    obtain ⟨answer, s', begun, run⟩ := bind_ok_iff.mp run
    cases answer with
    | inr _ =>
      cases run
      exact finish a s b t found s'' holds_ab begun is_known rounds'
    | inl next =>
      rcases onward a s b t next s' holds_ab begun with stays | goes
      · exact ih rounds' next s' b t found s'' stays run is_known
      · cases rounds' with
        | zero => exact rfl
        | succ rounds' =>
          refine Meets.bind goes ?_
          rintro _ t' ⟨next', rfl, holds_next⟩
          exact ih rounds' next s' next' t' found s'' holds_next run is_known

end Mirrors

/-- Where `m` answers from `s` it has come to a stop, or `n` answers from `t` and the outcomes are
alike. -/
def MirrorsUnless (stop : σ → Prop) (spent : ε) (m : EStateM ε σ α) (n : EStateM ε τ γ) (s : σ)
    (t : τ) (alike : α → σ → γ → τ → Prop) : Prop :=
  ∀ a s', m s = .ok a s' → stop s' ∨ Meets n t (alike a s') (only spent)

section

variable {stop : σ → Prop} {spent : ε} {m : EStateM ε σ α} {n : EStateM ε τ γ} {s : σ} {t : τ}
variable {f : α → EStateM ε σ β} {g : γ → EStateM ε τ δ}
variable {alike : α → σ → γ → τ → Prop} {later : β → σ → δ → τ → Prop}

theorem Mirrors.unless (mirrors : Mirrors spent m n s t fun a s' b t' => alike a s' b t' ∨ stop s') :
    MirrorsUnless stop spent m n s t alike := by
  intro a s' run
  by_cases stopped : stop s'
  · exact .inl stopped
  · exact .inr ((mirrors a s' run).imp fun b t' met => met.resolve_right stopped)

namespace MirrorsUnless

theorem never_iff : MirrorsUnless (fun _ => False) spent m n s t alike ↔ Mirrors spent m n s t alike := by
  simp only [MirrorsUnless, Mirrors, false_or]

theorem bind {last : σ → Prop} (first : MirrorsUnless stop spent m n s t alike)
    (stuck : ∀ a s', stop s' → Meets (f a) s' (fun _ s'' => last s'') anyFault)
    (next : ∀ a s' b t', alike a s' b t' → MirrorsUnless last spent (f a) (g b) s' t' later) :
    MirrorsUnless last spent (m >>= f) (n >>= g) s t later := by
  intro c s'' run
  obtain ⟨a, s', begun, run⟩ := bind_ok_iff.mp run
  rcases first a s' begun with stopped | met
  · have stays := (stuck a s' stopped).of_ok run
    exact .inl stays
  · by_cases stopped : last s''
    · exact .inl stopped
    · exact .inr (met.bind fun b t' met => (next a s' b t' met c s'' run).resolve_left stopped)

/-- Where nothing comes behind a stop, the exception goes away. -/
theorem bind_never (first : MirrorsUnless stop spent m n s t alike)
    (never : ∀ a s', stop s' → Meets (f a) s' (fun _ _ => False) anyFault)
    (next : ∀ a s' b t', alike a s' b t' → Mirrors spent (f a) (g b) s' t' later) :
    Mirrors spent (m >>= f) (n >>= g) s t later :=
  never_iff.mp (first.bind never fun a s' b t' met => never_iff.mpr (next a s' b t' met))

/-- A loop stops if one of its rounds does. -/
theorem iterate {spent' : ε} (holds : α → σ → γ → τ → Prop)
    (stuck : ∀ a s, stop s → Meets (body a) s (fun _ s' => stop s') anyFault)
    (round : ∀ a s b t, holds a s b t →
      MirrorsUnless stop spent (body a) (body' b) s t (Mirrors.Onward holds later)) :
    ∀ (rounds rounds' : Nat) (a : α) (s : σ) (b : γ) (t : τ), holds a s b t →
      MirrorsUnless stop spent (EcmaScript.iterate spent' body rounds a)
        (EcmaScript.iterate spent body' rounds' b) s t later := by
  intro rounds
  induction rounds with
  | zero => exact fun _ _ _ _ _ _ _ _ run => nomatch run
  | succ rounds ih =>
    intro rounds' a s b t holds_ab
    cases rounds' with
    | zero => exact fun _ _ _ => .inr rfl
    | succ rounds' =>
      refine (round a s b t holds_ab).bind (fun answer s' stopped => ?_) ?_
      · cases answer with
        | inl next =>
          exact Meets.iterate_returns (fun _ s => stop s)
            (fun a s stopped => (stuck a s stopped).imp fun answer _ stopped => by
              cases answer <;> exact stopped) rounds next s' stopped
        | inr found => exact stopped
      · intro answer s' answer' t' met
        cases answer with
        | inl next =>
          cases answer' with
          | inl next' => exact ih rounds' next s' next' t' met
          | inr _ => exact met.elim
        | inr found =>
          cases answer' with
          | inl _ => exact met.elim
          | inr found' =>
            intro _ _ run
            cases run
            exact .inr met

end MirrorsUnless

namespace Mirrors

theorem bind_unless (first : Mirrors spent m n s t alike)
    (next : ∀ a s' b t', alike a s' b t' → MirrorsUnless stop spent (f a) (g b) s' t' later) :
    MirrorsUnless stop spent (m >>= f) (n >>= g) s t later :=
  (MirrorsUnless.never_iff.mpr first).bind (fun _ _ => False.elim) next

/-- Loops mirror each other if their rounds do. The numbers of rounds have nothing to do with each
other. -/
theorem iterate {spent' : ε} (holds : α → σ → γ → τ → Prop) (round : ∀ a s b t, holds a s b t →
      Mirrors spent (body a) (body' b) s t (Onward holds later))
    (rounds rounds' : Nat) (a : α) (s : σ) (b : γ) (t : τ) (holds_ab : holds a s b t) :
    Mirrors spent (EcmaScript.iterate spent' body rounds a)
      (EcmaScript.iterate spent body' rounds' b) s t later :=
  MirrorsUnless.never_iff.mp (.iterate holds (fun _ _ => False.elim)
    (fun a s b t met => MirrorsUnless.never_iff.mpr (round a s b t met)) rounds rounds' a s b t holds_ab)

end Mirrors

end

end

end EcmaScript
