import EcmaScript.Proofs.Judgements
import EcmaScript.Proofs.Mirroring

/-!
Couplings of two runs. A coupling says which states of two parsers belong together, the one on the
left and the one on the right, and gives an account of the few steps that fetch a token: these keep
the states together, or else the run on the left has missed something, and will not have caught up
with it when it ends. Everything else a rule does is done to both sides alike. So a coupling is a
comparison to which the context is all the same, and whoever shows that the places in the source look
alike on both sides may apply it to all rules.
-/

namespace EcmaScript

variable {α β : Type}

/-- Nothing is read and nothing is given away between `p` and `q`. -/
structure Parser.Quiet (p q : Parser) : Prop extends p.Calm q where
  last : p.last.isSome → q.last.isSome
  context : p.context.isSome → q.context.isSome
  taken : q.taken = p.taken

theorem Parser.Unmoved.quiet {p q : Parser} (unmoved : p.Unmoved q) : p.Quiet q where
  toCalm := unmoved.toCalm
  last := unmoved.last ▸ id
  context := unmoved.context ▸ id
  taken := unmoved.taken

/-- Two runs side by side. Whether the left one has missed something may depend on the trees in hand. -/
structure Coupling where
  token : Token → Token → Prop
  pair : Parser → Parser → Prop
  missed : List Node → Parser → Prop
  refl : ∀ t, token t t
  lexeme : ∀ {t u}, token t u → u.lexeme = t.lexeme
  raw : ∀ {t u}, token t u → u.raw = t.raw
  concurs : ∀ {p q}, pair p q → p.Concurs q
  lookahead : ∀ {p q t}, pair p q → p.lookahead = some t → ∃ u, q.lookahead = some u ∧ token t u
  changed : ∀ {p q p' q'}, pair p q → p.Unmoved p' → q.Unmoved q' → p'.Concurs q' → pair p' q'
  entered : ∀ {p q} (c : Context), pair p q → pair { p with context := some c } { q with context := some c }
  stricter : ∀ {p q} (strict : Option Bool), pair p q → pair { p with strict } { q with strict }
  relocated : ∀ {p q}, pair p q → pair { p with last := p.start } { q with last := q.start }
  fetches : ∀ {p q} (hands : List Node), pair p q →
    MirrorsUnless (missed hands) .exhausted Parse.lex Parse.lex p q fun _ p' _ q' => pair p' q'
  rescans : ∀ {p q t} (hands : List Node), pair p q → p.lookahead = some t → t.IsSlash →
    MirrorsUnless (missed hands) .exhausted Parse.rescan Parse.rescan p q fun r p' r' q' =>
      (r.pattern = r'.pattern ∧ r.flags = r'.flags ∧ r.raw = r'.raw) ∧ pair p' q'
  missed_recalled : ∀ {hands more p}, Covers hands more → missed hands p → missed more p
  missed_quiet : ∀ {hands p p'}, missed hands p → p.Quiet p' → missed hands p'
  missed_relocated : ∀ {hands p}, missed hands p → missed hands { p with last := p.start }
  missed_fetch : ∀ {hands p}, missed hands p → Meets Parse.lex p (fun _ p' => missed hands p') anyFault
  missed_rescan : ∀ {hands p t}, missed hands p → p.lookahead = some t → t.IsSlash →
    Meets Parse.rescan p (fun _ p' => missed hands p') anyFault

namespace Coupling

open Parse

variable {k : Coupling} {hands base between : List Node} {apart : Bool} {p q : Parser}

/-- The states belong together, or the left run goes on alone. -/
def Holds (k : Coupling) (hands : List Node) : Bool → Parser → Parser → Prop
  | true, p, q => q = p ∧ k.missed hands p
  | false, p, q => k.pair p q

/-- What has been missed is not caught up with. From states that belong together both sides give answers
that are alike, and their states belong together again, unless the left one has missed something. -/
def At [Bears α] (k : Coupling) (m n : ParseM α) (alike : α → α → Prop) (base : List Node) :
    Bool → Parser → Parser → Prop
  | true, p, _ => Meets m p (fun a p' => alike a a ∧ k.missed (base ++ trees a) p') anyFault
  | false, p, q => ∀ a p', m p = .ok a p' → alike a a ∧ k.missed (base ++ trees a) p' ∨
      Meets n q (fun b q' => alike a b ∧ k.pair p' q') (only .exhausted)

section

variable [Bears α] [Bears β] {m n m' n' : ParseM α} {f g : α → ParseM β}
variable {alike : α → α → Prop} {later : β → β → Prop}

theorem at_congr (left : m p = m' p) (right : apart = false → n q = n' q)
    (met : k.At m' n' alike base apart p q) : k.At m n alike base apart p q := by
  cases apart with
  | true =>
    have met : Meets m' p _ _ := met
    show Meets m p _ _
    unfold Meets at met ⊢
    rwa [left]
  | false =>
    intro a p' run
    refine (met a p' (left ▸ run)).imp id fun met => ?_
    unfold Meets at met ⊢
    rwa [right rfl]

/-- A computation that gives no answer goes with any other. -/
theorem never (fails : Meets m p (fun _ _ => False) anyFault) : k.At m n alike base apart p q := by
  cases apart with
  | true => exact fails.imp fun _ _ => False.elim
  | false =>
    intro a p' run
    have impossible := fails.of_ok run
    exact impossible.elim

theorem pure_at {a b : α} (holds : k.Holds (base ++ trees a) apart p q) (self : alike a a)
    (same : alike a b) : k.At (pure a) (pure b) alike base apart p q := by
  cases apart with
  | true => exact ⟨self, holds.2⟩
  | false =>
    intro _ _ run
    cases run
    exact .inr ⟨same, holds⟩

theorem bind_at (first : k.At m n alike between apart p q)
    (next : ∀ a b apart' p' q', (apart = true → apart' = true) → m p = .ok a p' → alike a b →
      k.Holds (between ++ trees a) apart' p' q' → k.At (f a) (g b) later base apart' p' q') :
    k.At (m >>= f) (n >>= g) later base apart p q := by
  cases apart with
  | true =>
    refine .into (.of_returns fun a p' run => ?_)
    have met := Meets.of_ok run first
    exact next a a true p' p' id run met.1 ⟨rfl, met.2⟩
  | false =>
    intro c p'' run
    obtain ⟨a, p', begun, run⟩ := bind_ok_iff.mp run
    by_cases missed : later c c ∧ k.missed (base ++ trees c) p''
    · exact .inl missed
    · rcases first a p' begun with ⟨self, missed'⟩ | met
      · have stays := Meets.of_ok run (next a a true p' p' nofun begun self ⟨rfl, missed'⟩)
        exact absurd stays missed
      · refine .inr (met.bind fun b q' met => ?_)
        exact (next a b false p' q' id begun met.1 met.2 c p'' run).resolve_left missed

end

theorem step {change change' : Parser → Parser} (pair : k.pair p q → k.pair (change p) (change' q))
    (missed : k.missed hands p → k.missed hands (change p)) (holds : k.Holds hands apart p q) :
    k.At (modify change) (modify change') Eq hands apart p q := by
  cases apart with
  | true => exact ⟨rfl, by simpa using missed holds.2⟩
  | false =>
    intro _ _ run
    cases run
    exact .inr ⟨rfl, pair holds⟩

theorem seen (holds : k.Holds hands apart p q) : p.Seen k.token q := by
  cases apart with
  | true =>
    obtain ⟨rfl, -⟩ := holds
    exact { Parser.Concurs.refl q with
      cover := fun t _ => k.refl t
      lookahead := fun t looked => ⟨t, looked, k.refl t⟩ }
  | false =>
    exact { k.concurs holds with
      cover := fun t _ => k.refl t
      lookahead := fun t => k.lookahead holds }

theorem lex_at (holds : k.Holds hands apart p q) : k.At lex lex (fun given given' => given = p.lookahead ∧
      ∀ t, given = some t → ∃ u, given' = some u ∧ k.token t u) hands apart p q := by
  cases apart with
  | true =>
    refine ((k.missed_fetch holds.2).and_returns (lex_returns p)).imp fun given p' met => ?_
    exact ⟨⟨met.2.1, fun t found => ⟨t, found, k.refl t⟩⟩, by simpa using met.1⟩
  | false =>
    intro given p' run
    obtain ⟨rfl, -⟩ := (lex_returns p).of_ok run
    rcases k.fetches hands holds _ p' run with missed | met
    · exact .inl ⟨⟨rfl, fun t found => ⟨t, found, k.refl t⟩⟩, by simpa using missed⟩
    · refine .inr ((met.and_returns (lex_returns q)).imp fun given' q' met => ⟨⟨rfl, ?_⟩, met.1⟩)
      intro t found
      rw [met.2.1]
      exact k.lookahead holds found

theorem rescan_at {t : Token} (holds : k.Holds hands apart p q) (looked : p.lookahead = some t)
    (isSlash : t.IsSlash) : k.At rescan rescan
      (fun r r' => r.pattern = r'.pattern ∧ r.flags = r'.flags ∧ r.raw = r'.raw) hands apart p q := by
  cases apart with
  | true =>
    refine (k.missed_rescan holds.2 looked isSlash).imp fun _ _ missed => ?_
    exact ⟨⟨rfl, rfl, rfl⟩, by simpa using missed⟩
  | false =>
    intro r p' run
    rcases k.rescans hands holds looked isSlash r p' run with missed | met
    · exact .inl ⟨⟨rfl, rfl, rfl⟩, by simpa using missed⟩
    · exact .inr met

def comparison (k : Coupling) : Comparison where
  toTrees := .among fun _ => True
  token := k.token
  Holds _ := k.Holds
  At _ apart p q m n alike base := k.At m n alike base apart p q
  lexeme := k.lexeme
  raw := k.raw
  self _ := k.refl _
  named _ _ := trivial
  sees := seen
  bound := False.elim
  recalled {_ _ _ apart _ _} kept holds := by
    cases apart with
    | true => exact ⟨holds.1, k.missed_recalled kept holds.2⟩
    | false => exact holds
  pure := pure_at
  bind first next := bind_at first fun a b apart' p' q' _ => next a b apart' p' q'
  get {_ _ apart _ _} holds := by
    cases apart with
    | true => exact ⟨seen (show k.Holds _ true _ _ from ⟨rfl, holds.2⟩), by simpa using holds.2⟩
    | false =>
      intro _ _ run
      cases run
      exact .inr ⟨seen (show k.Holds _ false _ _ from holds), holds⟩
  changed holds unmoved unmoved' concurs _ :=
    step (fun pair => k.changed pair unmoved unmoved' concurs)
      (fun missed => k.missed_quiet missed unmoved.quiet) holds
  relocated := step k.relocated k.missed_relocated
  lex := lex_at
  rescan := rescan_at
  other _ _ := never trivial
  blames _ _ _ := never trivial
  complains _ _ _ := never (complain_never _)
  exhausted {_ _ _ _ apart _ _ _ _ _} met := by
    cases apart with
    | true => exact met
    | false => exact fun a p' run => (met a p' run).imp id fun _ => rfl

open Comparison in
theorem lax (k : Coupling) : k.comparison.Lax where
  held holds := holds
  anywhere met := met
  changeContext change := .learn context_upholds fun c _ => .step fun _ _ _ _ =>
    step (k.entered (change c)) fun missed =>
      k.missed_quiet missed ⟨⟨rfl, rfl, rfl, rfl, rfl⟩, id, fun _ => rfl, rfl⟩
  stricter := .step fun _ _ _ _ => step (k.stricter (some true)) fun missed =>
    k.missed_quiet missed ⟨⟨rfl, rfl, rfl, rfl, rfl⟩, id, id, rfl⟩
  restored _ := .step fun _ _ _ _ => step (k.stricter _) fun missed =>
    k.missed_quiet missed ⟨⟨rfl, rfl, rfl, rfl, rfl⟩, id, id, rfl⟩

end Coupling

end EcmaScript
