import EcmaScript.Cursor

/-!
What a computation can end in. `Meets m s returns fails` says of one run, the one from `s`, that its
answer and last state satisfy `returns`, or that its fault and last state satisfy `fails`. Both
halves are said together, since a failing run leaves its state to be looked at. A computation is
taken apart at its binds, and a loop is known by what one round of it does.
-/

namespace EcmaScript

variable {ε σ α β : Type}

def Meets (m : EStateM ε σ α) (s : σ) (returns : α → σ → Prop) (fails : ε → σ → Prop) : Prop :=
  match m s with
  | .ok a t => returns a t
  | .error e t => fails e t

/-- The postcondition of a run whose failures are of no interest. -/
def anyFault : ε → σ → Prop := fun _ _ => True

/-- The postcondition of a run that may not fail. -/
def noFault : ε → σ → Prop := fun _ _ => False

instance (e : ε) (s : σ) : Decidable (noFault e s) :=
  inferInstanceAs (Decidable False)

/-- The postcondition of a run that fails in one way only. -/
abbrev only (fault : ε) : ε → σ → Prop := fun found _ => found = fault

namespace Meets

variable {m : EStateM ε σ α} {f : α → EStateM ε σ β} {s t : σ} {a : α}
variable {returns : α → σ → Prop} {after : β → σ → Prop} {fails fails' : ε → σ → Prop}

instance [∀ a t, Decidable (returns a t)] [∀ e t, Decidable (fails e t)] :
    Decidable (Meets m s returns fails) :=
  match run : m s with
  | .ok a t => decidable_of_iff (returns a t) (by rw [Meets, run])
  | .error e t => decidable_of_iff (fails e t) (by rw [Meets, run])

theorem of_ok (run : m s = .ok a t) (met : Meets m s returns fails) : returns a t := by
  simpa only [Meets, run] using met

theorem of_error {e : ε} (run : m s = .error e t) (met : Meets m s returns fails) : fails e t := by
  simpa only [Meets, run] using met

/-- A run whose failures do not matter is known by its answers. -/
theorem of_returns (answers : ∀ a t, m s = .ok a t → returns a t) : Meets m s returns anyFault := by
  unfold Meets
  split
  next a t run => exact answers a t run
  next => trivial

theorem exists_ok (met : Meets m s returns noFault) : ∃ a t, m s = .ok a t ∧ returns a t := by
  unfold Meets at met
  split at met
  next a t run => exact ⟨a, t, run, met⟩
  next => exact met.elim

theorem runs (met : Meets m s (fun _ _ => True) noFault) : ∃ a t, m s = .ok a t := by
  obtain ⟨a, t, run, -⟩ := met.exists_ok
  exact ⟨a, t, run⟩

theorem exists_iff : Meets m s returns noFault ↔ ∃ a t, m s = .ok a t ∧ returns a t := by
  refine ⟨exists_ok, ?_⟩
  rintro ⟨a, t, run, met⟩
  simpa only [Meets, run] using met

theorem ok_iff : m s = .ok a t ↔ Meets m s (fun b u => b = a ∧ u = t) noFault := by
  refine ⟨fun run => exists_iff.mpr ⟨a, t, run, rfl, rfl⟩, fun met => ?_⟩
  obtain ⟨_, _, run, rfl, rfl⟩ := met.exists_ok
  exact run

theorem any : Meets m s (fun _ _ => True) anyFault :=
  of_returns fun _ _ _ => trivial

theorem bind_iff : Meets (m >>= f) s after fails ↔
    Meets m s (fun a t => Meets (f a) t after fails) fails := by
  simp only [Meets, Bind.bind, EStateM.bind]
  cases m s <;> rfl

/-- The second step is what the first one has to lead to. -/
theorem into (first : Meets m s (fun a t => Meets (f a) t after fails) fails) :
    Meets (m >>= f) s after fails :=
  bind_iff.mpr first

theorem bind (first : Meets m s returns fails)
    (next : ∀ a t, returns a t → Meets (f a) t after fails) : Meets (m >>= f) s after fails := by
  rw [bind_iff]
  unfold Meets at first ⊢
  cases run : m s with
  | ok a t =>
    rw [run] at first
    exact next a t first
  | error e t =>
    rw [run] at first
    exact first

/-- What comes before does not matter to a run whose failures do not. -/
theorem past (next : ∀ a t, Meets (f a) t after anyFault) : Meets (m >>= f) s after anyFault :=
  any.bind fun a t _ => next a t

theorem mono {wider : α → σ → Prop} (met : Meets m s returns fails)
    (weaker : ∀ a t, returns a t → wider a t) (excused : ∀ e t, fails e t → fails' e t) :
    Meets m s wider fails' := by
  unfold Meets at met ⊢
  cases run : m s with
  | ok a t =>
    rw [run] at met
    exact weaker a t met
  | error e t =>
    rw [run] at met
    exact excused e t met

theorem imp {wider : α → σ → Prop} (met : Meets m s returns fails)
    (weaker : ∀ a t, returns a t → wider a t) : Meets m s wider fails :=
  met.mono weaker fun _ _ failed => failed

theorem congr {others : α → σ → Prop} (same : ∀ a t, returns a t ↔ others a t) :
    Meets m s returns fails ↔ Meets m s others fails :=
  ⟨fun met => met.imp fun a t => (same a t).mp, fun met => met.imp fun a t => (same a t).mpr⟩

theorem and_returns {also : α → σ → Prop} (met : Meets m s returns fails)
    (too : Meets m s also anyFault) : Meets m s (fun a t => returns a t ∧ also a t) fails := by
  unfold Meets at met too ⊢
  cases run : m s with
  | ok a t =>
    rw [run] at met too
    exact ⟨met, too⟩
  | error e t =>
    rw [run] at met
    exact met

@[simp] theorem pure_iff : Meets (pure a : EStateM ε σ α) s returns fails ↔ returns a s :=
  Iff.rfl

@[simp] theorem get_iff {returns : σ → σ → Prop} :
    Meets (get : EStateM ε σ σ) s returns fails ↔ returns s s :=
  Iff.rfl

@[simp] theorem modify_iff {g : σ → σ} {returns : PUnit → σ → Prop} :
    Meets (modify g : EStateM ε σ PUnit) s returns fails ↔ returns ⟨⟩ (g s) :=
  Iff.rfl

theorem pure (holds : returns a s) : Meets (pure a : EStateM ε σ α) s returns fails :=
  holds

theorem get_bind {f : σ → EStateM ε σ β} (next : Meets (f s) s after fails) :
    Meets (get >>= f) s after fails :=
  next

theorem modify_bind {g : σ → σ} {f : PUnit → EStateM ε σ β} (next : Meets (f ⟨⟩) (g s) after fails) :
    Meets (modify g >>= f) s after fails :=
  next

theorem ite {b : Prop} [Decidable b] {n : EStateM ε σ α} (yes : b → Meets m s returns fails)
    (no : ¬b → Meets n s returns fails) : Meets (if b then m else n) s returns fails := by
  split
  next holds => exact yes holds
  next fails => exact no fails

theorem map_iff {g : α → β} : Meets (g <$> m) s after fails ↔
    Meets m s (fun a t => after (g a) t) fails := by
  simp only [Meets, Functor.map, EStateM.map]
  cases m s <;> rfl

variable {body : α → EStateM ε σ (α ⊕ β)}

/-- A loop ends within its rounds if every round that goes on makes a measure smaller. -/
theorem iterate {spent : ε} (holds : α → σ → Prop) (measure : σ → Nat) (round : ∀ a s, holds a s →
      Meets (body a) s (Sum.elim (fun a t => holds a t ∧ measure t < measure s) after) fails) :
    ∀ (rounds : Nat) (a : α) (s : σ), holds a s → measure s < rounds →
      Meets (iterate spent body rounds a) s after fails := by
  intro rounds
  induction rounds with
  | zero =>
    intro a s _ enough
    omega
  | succ rounds ih =>
    intro a s holds_a enough
    refine (round a s holds_a).bind fun result t met => ?_
    cases result with
    | inl next => exact ih next t met.1 (Nat.lt_of_lt_of_le met.2 (Nat.le_of_lt_succ enough))
    | inr answer => exact met

theorem iterate_keeps {spent : ε} (holds : α → σ → Prop) (excused : ∀ a s, holds a s → fails spent s)
    (round : ∀ a s, holds a s → Meets (body a) s (Sum.elim holds after) fails) :
    ∀ (rounds : Nat) (a : α) (s : σ), holds a s →
      Meets (EcmaScript.iterate spent body rounds a) s after fails := by
  intro rounds
  induction rounds with
  | zero =>
    intro a s holds_a
    exact excused a s holds_a
  | succ rounds ih =>
    intro a s holds_a
    refine (round a s holds_a).bind fun result t met => ?_
    cases result with
    | inl next => exact ih next t met
    | inr answer => exact met

theorem iterate_returns {spent : ε} (holds : α → σ → Prop)
    (round : ∀ a s, holds a s → Meets (body a) s (Sum.elim holds after) anyFault) :
    ∀ (rounds : Nat) (a : α) (s : σ), holds a s →
      Meets (EcmaScript.iterate spent body rounds a) s after anyFault :=
  iterate_keeps holds (fun _ _ _ => trivial) round

end Meets

end EcmaScript
