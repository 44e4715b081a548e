import EcmaScript.Proofs.ComparedStatements

/-!
Judgements. Most of what is said of rules is said of one run: that the context is put back, that the
fetches can be listed, that names and complaints are warranted by the tokens. A judgement of runs is a
comparison of each run with itself.
-/

namespace EcmaScript

variable {α β : Type}

/-- What is said of the run of a computation from a parser in a situation, where `Holds` is what is known
of the parser and `known` of its tokens. -/
structure Judgement extends Trees where
  known : Token → Prop
  Holds : Situation → Parser → Prop
  At : {α : Type} → Situation → Parser → ParseM α → (α → Prop) → Prop
  named : ∀ {t text}, known t → t.lexeme = .identifier text → name text
  lookahead : ∀ {s p t}, Holds s p → p.lookahead = some t → known t
  cover : ∀ {s p t}, Holds s p → p.coverInitialized = some t → known t
  bound : ∀ {s p c}, binding → Holds s p → p.context = some c → c = s.context
  protected pure : ∀ {α s p} {a : α} {answers : α → Prop}, Holds s p → answers a → At s p (pure a) answers
  protected bind : ∀ {α β s p} {m : ParseM α} {f : α → ParseM β} {answers : α → Prop} {later : β → Prop},
    At s p m answers → (∀ a q, m p = .ok a q → answers a → Holds s q → At s q (f a) later) →
    At s p (m >>= f) later
  protected get : ∀ {s p}, Holds s p → At s p get fun q => q = p
  changed : ∀ {s p} {change : Parser → Parser}, Holds s p → p.Unmoved (change p) →
    (∀ t, (change p).coverInitialized = some t → known t) → At s p (modify change) fun _ => True
  relocated : ∀ {s p}, Holds s p → At s p (modify fun q => { q with last := q.start }) fun _ => True
  protected lex : ∀ {s p}, Holds s p → At s p Parse.lex fun given => given = p.lookahead
  protected rescan : ∀ {s p t}, Holds s p → p.lookahead = some t → t.IsSlash →
    At s p Parse.rescan fun _ => True
  other : ∀ {α s p fault} {answers : α → Prop}, Holds s p → (∀ line text, fault ≠ .malformed line text) →
    At s p (throw fault) answers
  blames : ∀ {α s p t} {answers : α → Prop} (words : Option Text), Holds s p →
    (∀ token, t = some token → known token) → At s p (throw (p.complaint (t.map .ofToken) words)) answers
  complains : ∀ {α s p} {answers : α → Prop} (words : Text), Holds s p →
    At s p (throw (p.complaintHere words)) answers

namespace Judgement

variable {j : Judgement} {s : Situation} {p : Parser} {m : ParseM α} {answers wider : α → Prop}

theorem at_imp (met : j.At s p m answers) (weaker : ∀ a, answers a → wider a) : j.At s p m wider := by
  have next := j.bind met fun a q _ answered holds => j.pure holds (weaker a answered)
  rwa [bind_pure] at next

theorem get_at {f : Parser → ParseM α} (holds : j.Holds s p) (next : j.At s p (f p) answers) :
    j.At s p (get >>= f) answers := by
  apply j.bind (j.get holds)
  intro a q run _ _
  cases run
  exact next

theorem seen (holds : j.Holds s p) : p.Seen (fun t u => u = t ∧ j.known t) p where
  toConcurs := .refl p
  cover _ found := ⟨rfl, j.cover holds found⟩
  lookahead t found := ⟨t, found, rfl, j.lookahead holds found⟩

/-- Both sides are the same run. -/
def comparison (j : Judgement) : Comparison where
  toTrees := j.toTrees
  token t u := u = t ∧ j.known t
  Holds s _ _ p q := q = p ∧ j.Holds s p
  At s _ p _ m _ alike _ := j.At s p m fun a => alike a a
  lexeme stands := by rw [stands.1]
  raw stands := by rw [stands.1]
  self stands := ⟨rfl, stands.2⟩
  named stands := j.named stands.2
  sees := by
    rintro s _ _ p _ ⟨rfl, holds⟩
    exact j.seen holds
  bound binding holds := j.bound binding holds.2
  recalled _ holds := holds
  pure holds self _ := j.pure holds.2 self
  bind first next := j.bind first fun a q run alike holds => next a a false q q run alike ⟨rfl, holds⟩
  get holds := at_imp (j.get holds.2) fun _ same => same ▸ j.seen holds.2
  changed holds unmoved _ _ cover :=
    at_imp (j.changed holds.2 unmoved fun t found => (cover t found).2) fun _ _ => rfl
  relocated holds := at_imp (j.relocated holds.2) fun _ _ => rfl
  lex holds := at_imp (j.lex holds.2) fun _ same =>
    ⟨same, fun t found => ⟨t, found, rfl, j.lookahead holds.2 (same ▸ found)⟩⟩
  rescan holds looked isSlash := at_imp (j.rescan holds.2 looked isSlash) fun _ _ => ⟨rfl, rfl, rfl⟩
  other holds other := j.other holds.2 other
  blames _ holds known := get_at holds.2 (j.blames _ holds.2 fun t found => (known t found).2)
  complains message values holds := by
    unfold Parse.complain
    cases Text.formatExactly? values message.text with
    | some words => exact get_at holds.2 (j.complains words holds.2)
    | none => exact j.other holds.2 (by simp)
  exhausted met := met

theorem alone (j : Judgement) : j.comparison.Alone where
  same _ _ _ _ holds := at_imp (j.get holds.2) fun _ _ => ⟨rfl, rfl, rfl, rfl⟩
  token stands := stands.1 ▸ ⟨rfl, rfl⟩

theorem places (j : Judgement) : j.comparison.Places := by
  refine j.alone.places (Comparison.Switched.of_settings (d := j.comparison) ?_)
  exact fun _ _ _ _ holds => at_imp (j.get holds.2) fun _ _ => rfl

/-- A step that changes a register. -/
theorem maintains {change change' : Parser → Parser}
    (step : ∀ p, j.Holds s p → j.At s p (modify change) fun _ => True) :
    j.comparison.Maintains s (modify change) (modify change') :=
  .step fun _ _ p _ holds => at_imp (step p holds.2) fun _ _ => rfl

end Judgement

section

variable {names : Text → Prop} {node inner : Node} {head : List Node}

theorem Node.Among.of_usedParts (unnamed : node.isPlain = true ∨ node.isCompound = true)
    (among : ∀ part ∈ node.usedParts, part.Among names) : node.Among names := by
  refine .of_parts ?_ among
  cases node <;> first | rfl | simp [isPlain, isCompound] at unnamed

theorem Node.Among.of_inner (found : node.function? = some (head, inner) ∨ node.loop? = some (head, inner))
    (among : ∀ part ∈ head, part.Among names) (last : inner.Among names) : node.Among names := by
  cases node <;> rcases found with found | found <;> cases found
  all_goals
    refine .of_parts rfl ?_
    simp only [usedParts, parts, List.map_append, map_snd_bare]
    grind

end

/-- All names that trees use are to be of a kind. -/
def Trees.among (names : Text → Prop) : Trees where
  binding := False
  name := names
  expression := Node.Among names
  statement _ := Node.Among names
  body := Node.Among names
  identifier := Node.among_identifier
  plain plain := .of_usedParts (.inl plain)
  member among := .of_parts rfl (by simpa [Node.usedParts] using among)
  property keyed _ valued := Node.among_property keyed valued
  function found := .of_inner (.inl found)
  target found among := (Node.partwise_among.asPattern found).mp among
  lift among := among
  restate among := among
  compound compound := .of_usedParts (.inr compound)
  loop found := .of_inner (.inr found)
  switch discriminant cases := .of_parts rfl (by simpa [Node.usedParts, Node.parts] using ⟨discriminant, cases⟩)
  labeled named _ inner := .of_parts rfl (by simpa [Node.usedParts, Node.parts] using ⟨named, inner⟩)
  returned _ among := .of_parts rfl (by simpa [Node.usedParts, Node.parts] using among)
  broken targets _ := .of_parts rfl (by simpa [Node.usedParts, Node.parts] using fun text member => (targets text member).1)
  continued targets _ := .of_parts rfl (by simpa [Node.usedParts, Node.parts] using fun text member => (targets text member).1)
  bodied among := .of_parts rfl (by simpa [Node.usedParts, Node.parts] using among)

end EcmaScript
