import EcmaScript.Proofs.Judgements

/-!
The journal of a run. A parser gets at the tokens of its source in three ways only: it reads the
first one, it gives the lookahead away and reads the next one, or it reads the slash in the lookahead
again as a regular expression and then the token behind it. `Performs m p journal` takes the run of
`m` from `p` apart into steps and lists every token that was fetched on the way, with the registers
right after it. All other steps leave the source, the cursor and the lookahead alone. Each rule of
the grammar has a journal, whether it answers or fails: to have one is a judgement.
-/

namespace EcmaScript

variable {α β : Type}

/-- A token that was fetched, with the registers after it: the first one, the one behind the token
that was given away, or the one behind a regular expression. -/
inductive Fetch where
  | first (after : Parser)
  | next (given : Token) (after : Parser)
  | literal (r : RegExp) (after : Parser)

/-- The run of a computation, taken apart, fetches the tokens of the journal. A fetch that fails
leaves no entry. -/
inductive Performs : {α : Type} → ParseM α → Parser → List Fetch → Prop
  | pure {α : Type} (a : α) (p : Parser) : Performs (pure a : ParseM α) p []
  | throw {α : Type} (fault : Fault) (p : Parser) : Performs (throw fault : ParseM α) p []
  | get (p : Parser) : Performs (get : ParseM Parser) p []
  | modify {change : Parser → Parser} {p : Parser} (calm : p.Calm (change p)) :
    Performs (modify change : ParseM Unit) p []
  | peek {p q : Parser} (begun : p.cursor.index = 0) (run : Parse.peek p = .ok () q) :
    Performs Parse.peek p [.first q]
  | peekFails {p q : Parser} {fault : Fault} (run : Parse.peek p = .error fault q) :
    Performs Parse.peek p []
  | lex {p q : Parser} {token : Token} (looked : p.lookahead = some token)
    (run : Parse.lex p = .ok (some token) q) : Performs Parse.lex p [.next token q]
  | lexFails {p q : Parser} {fault : Fault} (run : Parse.lex p = .error fault q) :
    Performs Parse.lex p []
  | rescan {p q : Parser} {token : Token} {r : RegExp} (looked : p.lookahead = some token)
    (isSlash : token.IsSlash) (run : Parse.rescan p = .ok r q) :
    Performs Parse.rescan p [.literal r q]
  | rescanFails {p q : Parser} {fault : Fault} (run : Parse.rescan p = .error fault q) :
    Performs Parse.rescan p []
  | bind {α β : Type} {m : ParseM α} {f : α → ParseM β} {p q : Parser} {a : α}
    {early late : List Fetch} (run : m p = .ok a q) (first : Performs m p early)
    (next : Performs (f a) q late) : Performs (m >>= f) p (early ++ late)
  | bindFails {α β : Type} {m : ParseM α} {f : α → ParseM β} {p q : Parser} {fault : Fault}
    {early : List Fetch} (run : m p = .error fault q) (first : Performs m p early) :
    Performs (m >>= f) p early

/-- The run from `p` has a journal, and there is a lookahead after it. -/
structure LoggedAt (m : ParseM α) (p : Parser) : Prop where
  performs : ∃ journal, Performs m p journal
  lookahead : Meets m p (fun _ q => q.lookahead.isSome) anyFault

/-- From any lookahead the computation has a journal. -/
def Logged (m : ParseM α) : Prop :=
  ∀ p : Parser, p.lookahead.isSome → LoggedAt m p

theorem LoggedAt.bind {m : ParseM α} {f : α → ParseM β} {p : Parser} (first : LoggedAt m p)
    (next : ∀ a q, m p = .ok a q → q.lookahead.isSome → LoggedAt (f a) q) : LoggedAt (m >>= f) p := by
  obtain ⟨early, performs⟩ := first.performs
  cases run : m p with
  | ok a q =>
    have looked : q.lookahead.isSome := by
      have met := first.lookahead.of_ok run
      exact met
    have rest := next a q run looked
    obtain ⟨late, performs'⟩ := rest.performs
    refine ⟨⟨early ++ late, .bind run performs performs'⟩, .into ?_⟩
    unfold Meets
    rw [run]
    exact rest.lookahead
  | error fault q =>
    refine ⟨⟨early, .bindFails run performs⟩, .into ?_⟩
    unfold Meets
    rw [run]
    trivial

namespace LoggedAt

variable {p : Parser}

theorem pure (a : α) (looked : p.lookahead.isSome) : LoggedAt (pure a : ParseM α) p :=
  ⟨⟨[], .pure a p⟩, looked⟩

theorem throw (fault : Fault) : LoggedAt (throw fault : ParseM α) p :=
  ⟨⟨[], .throw fault p⟩, trivial⟩

theorem modify {change : Parser → Parser} (looked : p.lookahead.isSome) (calm : p.Calm (change p)) :
    LoggedAt (modify change) p := by
  refine ⟨⟨[], .modify calm⟩, ?_⟩
  have same : (change p).lookahead.isSome = p.lookahead.isSome := by
    simpa using congrArg Option.isSome calm.lookahead
  exact same.trans looked

end LoggedAt

namespace Parse

theorem peek_lookahead (p : Parser) : Meets peek p (fun _ q => q.lookahead.isSome) anyFault := by
  refine (peek_fetches p).imp ?_
  rintro _ _ ⟨_, _, _, _, -, rfl⟩
  rfl

theorem lex_logged : Logged lex := by
  intro p looked
  obtain ⟨token, looked⟩ := Option.isSome_iff_exists.mp looked
  refine ⟨?_, (lex_returns p).imp fun _ _ met => met.2⟩
  cases run : lex p with
  | ok given q =>
    obtain rfl := ((lex_returns p).of_ok run).1.trans looked
    exact ⟨_, .lex looked run⟩
  | error fault q => exact ⟨_, .lexFails run⟩

/-- The slash in the lookahead may be read again. -/
theorem rescan_logged {p : Parser} {token : Token} (looked : p.lookahead = some token)
    (isSlash : token.IsSlash) : LoggedAt rescan p := by
  refine ⟨?_, ?_⟩
  · cases run : rescan p with
    | ok r q => exact ⟨_, .rescan looked isSlash run⟩
    | error fault q => exact ⟨_, .rescanFails run⟩
  · refine .past fun mark _ => .modify_bind ?_
    refine .past fun r q => Meets.bind ?_ fun _ _ found => found
    exact (lex_returns q).bind fun _ _ met => met.2

end Parse

/-- To have a journal is a judgement, for which nothing has to be known but that there is a lookahead. -/
def logging : Judgement where
  toTrees := .among fun _ => True
  known _ := True
  Holds _ p := p.lookahead.isSome
  At _ p m answers := LoggedAt m p ∧ Meets m p (fun a _ => answers a) anyFault
  named _ _ := trivial
  lookahead _ _ := trivial
  cover _ _ := trivial
  bound := False.elim
  pure looked answered := ⟨.pure _ looked, answered⟩
  bind := by
    rintro α β s p m f answers later ⟨logged, answered⟩ next
    have step (a : α) (q : Parser) (run : m p = .ok a q) (looked : q.lookahead.isSome) :=
      next a q run (answered.of_ok run) looked
    refine ⟨logged.bind fun a q run looked => (step a q run looked).1, ?_⟩
    refine .into (Meets.of_returns fun a q run => ?_)
    have looked := logged.lookahead.of_ok run
    exact (step a q run looked).2
  get looked := ⟨⟨⟨[], .get _⟩, looked⟩, rfl⟩
  changed looked unmoved _ := ⟨.modify looked unmoved.toCalm, trivial⟩
  relocated looked := ⟨.modify looked ⟨rfl, rfl, rfl, rfl, rfl⟩, trivial⟩
  lex looked := ⟨Parse.lex_logged _ looked, (Parse.lex_returns _).imp fun _ _ met => met.1⟩
  rescan _ looked isSlash := ⟨Parse.rescan_logged looked isSlash, .any⟩
  other _ _ := ⟨.throw _, trivial⟩
  blames _ _ _ := ⟨.throw _, trivial⟩
  complains _ _ := ⟨.throw _, trivial⟩

open Comparison in
theorem logging_lax : logging.comparison.Lax where
  held holds := holds
  anywhere met := met
  changeContext _ := .learn context_upholds fun _ _ =>
    logging.maintains fun _ looked => ⟨.modify looked ⟨rfl, rfl, rfl, rfl, rfl⟩, trivial⟩
  stricter := logging.maintains fun _ looked => ⟨.modify looked ⟨rfl, rfl, rfl, rfl, rfl⟩, trivial⟩
  restored _ := logging.maintains fun _ looked => ⟨.modify looked ⟨rfl, rfl, rfl, rfl, rfl⟩, trivial⟩

def logged : Discipline where
  toComparison := logging.comparison
  places := logging.places
  scopes := logging_lax.scopes

namespace Grammar

open Discipline

/-- A reader all of whose rules have journals. -/
def Logs (reader : Reader) : Prop :=
  ∀ goal, Logged (reader goal)

theorem readerOf_logs (depth : Nat) : Logs (readerOf depth) := fun goal p looked =>
  (readerOf_trusts (d := logged) depth depth goal { context := {} } [] false p p ⟨rfl, looked⟩).1

theorem scriptBody_logged (depth : Nat) : Logged (scriptBody (readerOf depth)) := fun p looked =>
  (scriptBody_upholds (d := logged) (s := { context := {}, loose := true }) rfl
    (readerOf_trusts depth depth) [] false p p ⟨rfl, looked⟩).1

end Grammar

/-- Reading a program has a journal: the first token is read where there is no lookahead yet, and
from there on it is the rules that fetch the others. -/
theorem Parser.program_performs (p : Parser) (code : Text) :
    ∃ journal, Performs (Grammar.deep Grammar.program) (p.begin code) journal ∧
      ∀ q, Parse.peek (p.begin code) = .ok () q → .first q ∈ journal ∧
        ∃ (rest : ParseM Node) (late : List Fetch), Performs rest q late ∧ late ⊆ journal ∧
          rest q = Grammar.deep Grammar.program (p.begin code) := by
  cases run : Parse.peek (p.begin code) with
  | error fault q => exact ⟨_, .bind rfl (.get _) (.bindFails run (.peekFails run)), by simp⟩
  | ok answer q =>
    have looked : q.lookahead.isSome := by
      have met := (Parse.peek_lookahead (p.begin code)).of_ok run
      exact met
    have rest := (Grammar.scriptBody_logged (Grammar.depthFor (p.begin code).source) q looked).bind
      fun body _ _ looked => .pure (Node.program body) looked
    obtain ⟨late, performs⟩ := rest.performs
    refine ⟨_, .bind rfl (.get _) (.bind run (.peek rfl run) performs), fun r same => ?_⟩
    cases same
    exact ⟨by simp, _, late, performs, by simp, (bind_of_ok (f := fun _ => _) run).symm⟩

end EcmaScript
