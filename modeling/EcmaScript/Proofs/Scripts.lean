import EcmaScript.Proofs.PairedStatements

/-!
Scripts as one loop. A script is read in two loops, one for its directives and one for the items behind
them; here they are one, whose state knows whether a directive may still come. Two scripts are compared
round by round: the one on the left may close its directives by a round of its own, and once it has
come to its end, the one on the right goes on as it will.
-/

namespace EcmaScript

open Parse Grammar

variable {reader reader' : Reader} {check check' : Option Token → ParseM Unit} {p q : Parser}

theorem Meets.all_rounds {ε σ α : Type} {m : EStateM ε σ α} {s : σ} {returns : Nat → α → σ → Prop}
    {fails : ε → σ → Prop} (met : ∀ rounds, Meets m s (returns rounds) fails) :
    Meets m s (fun a t => ∀ rounds, returns rounds a t) fails := by
  unfold Meets at met ⊢
  split
  next a t run => simpa only [run] using met
  next e t run =>
    -- How a run fails does not depend on the rounds, so any number will do.
    simpa only [run] using met 0

theorem Coherent.inside_ite {α : Type} {src : Source} {token : Token} {yes no : ParseM α}
    {after : α → Parser → Prop} {fails : Fault → Parser → Prop} (coherent : Coherent src p token)
    (notEnd : token.lexeme ≠ .endOfSource) (goes : Meets yes p after fails) :
    Meets (do if ← inside then yes else no) p after fails := by
  have isInside := coherent.place_lt_size_iff.mpr notEnd
  obtain ⟨mark, start⟩ := coherent.start
  unfold inside Parse.source startMark
  simp only [bind_assoc]
  refine .get_bind ?_
  simp only [coherent.source, pure_bind]
  refine .get_bind ?_
  simp only [start, pure_bind]
  rw [if_pos (decide_eq_true (by simpa [Parser.place, start] using isInside))]
  exact goes

/-! ### One loop -/

namespace Grammar

/-- One item of a script behind its directives, or the end of the script. -/
def itemRound (reader : Reader) (statements : List Node) : ParseM (List Node ⊕ List Node) := do
  if ← inside then do
    let statement ← reader .listItem
    pure (.inl (statements ++ [statement]))
  else pure (.inr statements)

theorem scriptBody_eq (reader : Reader) :
    scriptBody reader = repeated (directiveRound reader refuseOctal) ([], none) >>=
      repeated (itemRound reader) :=
  rfl

/-- How a script goes on behind a round of its directives. -/
def afterDirective : (List Node × Option Token) ⊕ List Node → List Node × Option (Option Token)
  | .inl (body, octal) => (body, some octal)
  | .inr body => (body, none)

/-- One directive or item more, or the end of the script. The state is what has been read, and the
first octal literal of the directives as long as these go on. -/
def scriptRound (reader : Reader) (check : Option Token → ParseM Unit) :
    List Node × Option (Option Token) → ParseM ((List Node × Option (Option Token)) ⊕ List Node)
  | (body, some octal) => (.inl ∘ afterDirective) <$> directiveRound reader check (body, octal)
  | (body, none) => Sum.map (·, none) id <$> itemRound reader body

theorem scriptRound_some (reader : Reader) (check : Option Token → ParseM Unit) (body : List Node)
    (octal : Option Token) : scriptRound reader check (body, some octal) =
      (.inl ∘ afterDirective) <$> directiveRound reader check (body, octal) :=
  rfl

theorem scriptRound_none (reader : Reader) (check : Option Token → ParseM Unit) (body : List Node) :
    scriptRound reader check (body, none) = Sum.map (·, none) id <$> itemRound reader body :=
  rfl

/-- A script that is read from the given state on. -/
abbrev scriptFrom (reader : Reader) (check : Option Token → ParseM Unit) :
    Nat → List Node × Option (Option Token) → ParseM (List Node) :=
  iterate .exhausted (scriptRound reader check)

variable {body : List Node} {octal : Option Token}

theorem scriptFrom_ok {state next : List Node × Option (Option Token)} {found : List Node} {r : Parser}
    (begun : scriptRound reader check state p = .ok (.inl next) q)
    (run : ∃ rounds, scriptFrom reader check rounds next q = .ok found r) :
    ∃ rounds, scriptFrom reader check rounds state p = .ok found r := by
  obtain ⟨more, run⟩ := run
  exact ⟨more + 1, bind_ok_iff.mpr ⟨_, _, begun, run⟩⟩

theorem items_ok {found : List Node} : ∀ {rounds : Nat} {p : Parser} {body : List Node},
    iterate .exhausted (itemRound reader) rounds body p = .ok found q →
      ∃ rounds, scriptFrom reader check rounds (body, none) p = .ok found q := by
  intro rounds
  induction rounds with
  | zero => exact fun run => nomatch run
  | succ rounds ih =>
    intro p body run
    obtain ⟨answer, p', begun, run⟩ := bind_ok_iff.mp run
    cases answer with
    | inl next => exact scriptFrom_ok (bind_ok_iff.mpr ⟨_, _, begun, rfl⟩) (ih run)
    | inr found =>
      exact ⟨1, bind_ok_iff.mpr ⟨_, _, bind_ok_iff.mpr ⟨_, _, begun, rfl⟩, run⟩⟩

theorem directives_ok {found : List Node} {r : Parser} : ∀ {rounds : Nat} {p : Parser}
    {state : List Node × Option Token},
    iterate .exhausted (directiveRound reader check) rounds state p = .ok body q →
    (∃ rounds, scriptFrom reader check rounds (body, none) q = .ok found r) →
      ∃ rounds, scriptFrom reader check rounds (state.1, some state.2) p = .ok found r := by
  intro rounds
  induction rounds with
  | zero => exact fun run => nomatch run
  | succ rounds ih =>
    rintro p ⟨before, octal⟩ run rest
    obtain ⟨answer, p', begun, run⟩ := bind_ok_iff.mp run
    cases answer with
    | inl next => exact scriptFrom_ok (bind_ok_iff.mpr ⟨_, _, begun, rfl⟩) (ih run rest)
    | inr body' =>
      -- The round that closes the directives is a round of the one loop as well.
      cases run
      exact scriptFrom_ok (bind_ok_iff.mpr ⟨_, _, begun, rfl⟩) rest

/-- A script that is read is read by the one loop, too. -/
theorem scriptBody_ok (run : scriptBody reader p = .ok body q) :
    ∃ rounds, scriptFrom reader refuseOctal rounds ([], some none) p = .ok body q := by
  rw [scriptBody_eq] at run
  obtain ⟨before, r, directives, items⟩ := bind_ok_iff.mp run
  obtain ⟨_, _, got, directives⟩ := bind_ok_iff.mp directives
  cases got
  obtain ⟨_, _, got, items⟩ := bind_ok_iff.mp items
  cases got
  exact directives_ok directives (items_ok items)

variable {after : List Node → Parser → Prop}

theorem items_meets : ∀ (rounds : Nat) {body : List Node} {q : Parser},
    (∀ rounds, Meets (scriptFrom reader check rounds (body, none)) q after (only .exhausted)) →
    Meets (iterate .exhausted (itemRound reader) rounds body) q after (only .exhausted) := by
  intro rounds
  induction rounds with
  | zero => exact fun _ => rfl
  | succ rounds ih =>
    intro body q all
    refine Meets.bind (.all_rounds fun rounds =>
      Meets.bind_iff.mp (Meets.bind_iff.mp (all (rounds + 1)))) fun answer r all => ?_
    cases answer with
    | inl next => exact ih all
    | inr found => exact all 0

theorem directives_meets : ∀ (rounds : Nat) {state : List Node × Option Token} {q : Parser},
    (∀ rounds, Meets (scriptFrom reader check rounds (state.1, some state.2)) q after
      (only .exhausted)) → Meets (iterate .exhausted (directiveRound reader check) rounds state >>=
        repeated (itemRound reader)) q after (only .exhausted) := by
  intro rounds
  induction rounds with
  | zero => exact fun _ => rfl
  | succ rounds ih =>
    rintro ⟨body, octal⟩ q all
    rw [iterate, bind_assoc]
    refine Meets.bind (.all_rounds fun rounds =>
      Meets.bind_iff.mp (Meets.bind_iff.mp (all (rounds + 1)))) fun answer r all => ?_
    cases answer with
    | inl next => exact ih all
    | inr body =>
      refine .into (.pure (.get_bind ?_))
      exact items_meets _ all

theorem scriptBody_meets
    (all : ∀ rounds, Meets (scriptFrom reader refuseOctal rounds ([], some none)) q after
      (only .exhausted)) : Meets (scriptBody reader) q after (only .exhausted) := by
  rw [scriptBody_eq]
  unfold repeated
  rw [bind_assoc]
  exact .get_bind (directives_meets _ all)

end Grammar

/-! ### Two scripts -/

namespace Ties

/-- Between statements no register of the cover grammar matters. -/
def loose : Ties :=
  ⟨False, False⟩

end Ties

namespace Pairing

variable {w : Pairing} {lists : List Node → List Node → Prop} {tied : Prop}
variable {state state' next next' : List Node × Option (Option Token)} {body body' : List Node}
variable {octal octal' : Option Token} {p' : Parser}

/-- What the scripts of both sides have in common. While the left one has not come to its end, it has
no more directives only if the right one has none. -/
structure Scripting (w : Pairing) (tied : Prop) (lists : List Node → List Node → Prop)
    (state : List Node × Option (Option Token)) (p : Parser)
    (state' : List Node × Option (Option Token)) (q : Parser) : Prop where
  lists : lists state.1 state'.1
  octal : ∀ octal octal', state.2 = some octal → state'.2 = some octal' → tied →
    octal'.isSome → octal.isSome
  reached : w.Near False .loose p q ∧ (state.2 = none → state'.2 = none) ∨ w.Parted .loose p q

theorem itemRound_mirrors {k : Ties} {seen : Prop} (mates : w.Mates reader reader') (near : w.Near seen k p q)
    (body body' : List Node) : Mirrors .exhausted (itemRound reader body) (itemRound reader' body') p q
      fun answer p' answer' q' => ∃ item, answer = .inl (body ++ [item]) ∧
        answer' = .inl (body' ++ [item]) ∧ w.Reached True True k p' q' := by
  refine inside_bind near (.ite (fun _ => ?_) fun isFalse => absurd rfl isFalse)
  refine (mates.listItem near).agree fun item p' q' reached => ?_
  exact .pure ⟨item, rfl, rfl, reached⟩

theorem scriptRound_ended {src : Source} (body : List Node) (ended : p.Ended src) :
    Meets (scriptRound reader check (body, none)) p (fun answer p' => answer = .inr body ∧ p' = p)
      anyFault :=
  Meets.map_iff.mpr (ended.inside_ite ⟨rfl, rfl⟩)

/-- Both scripts go on as they are, or the left one has closed its directives. -/
theorem Scripting.of_reached (same : lists next.1 next'.1)
    (octal : ∀ octal octal', next.2 = some octal → next'.2 = some octal' → tied →
      octal'.isSome → octal.isSome)
    (closes : next.2 = none → next'.2 = none) (reached : w.Reached False True .loose p q) :
    w.Scripting tied lists next p next' q :=
  ⟨same, octal, reached.imp (fun near => ⟨near, closes⟩) And.right⟩

theorem source_stays (p : Parser) : Meets source p (fun _ p' => p' = p) anyFault := by
  refine .get_bind ?_
  cases p.source with
  | some src => exact rfl
  | none => trivial

theorem isDirective_stays (statement : Node) (p : Parser) :
    Meets (isDirective statement) p (fun _ p' => p' = p) anyFault := by
  cases statement with
  | expressionStatement expression => exact rfl
  | _ => trivial

theorem lookahead_left {α β : Type} {token : Token} {f : Token → ParseM α} {n : ParseM β}
    {alike : α → Parser → β → Parser → Prop} (looked : p.lookahead = some token)
    (next : Mirrors .exhausted (f token) n p q alike) :
    Mirrors .exhausted (lookahead >>= f) n p q alike := by
  intro answer p' run
  obtain ⟨token', r, found, run⟩ := bind_ok_iff.mp run
  obtain ⟨rfl, found⟩ := (lookahead_returns p).of_ok found
  obtain rfl : token = token' := Option.some.inj (looked.symm.trans found)
  exact next answer p' run

theorem stringStatement?_item {value : Text} {isOctal : Bool} (mates : w.Mates reader reader')
    (near : w.Near False .loose p q) (looks : p.Looks (.string value isOctal)) (body' : List Node) :
    Mirrors .exhausted (stringStatement? reader) (itemRound reader' body') p q
      fun found p' answer q' => ∃ token statement text, found = some (token, statement, text) ∧
        answer = .inl (body' ++ [statement]) ∧ w.Reached False True .loose p' q' := by
  refine inside_bind near (.ite (fun _ => ?_) fun isFalse => absurd rfl isFalse)
  obtain ⟨token, looked, isString⟩ := looks
  refine lookahead_left looked ?_
  rw [isString]
  refine (mates.listItem near).agree fun statement p q reached => ?_
  have reached : w.Reached False True .loose p q := reached.loosen id id
  refine .of_pure ((isDirective_stays statement p).bind ?_)
  rintro isDirective _ rfl
  refine .ite (fun _ => (source_stays _).bind ?_) fun _ => ⟨token, statement, none, rfl, rfl, reached⟩
  rintro src _ rfl
  exact ⟨token, statement, _, rfl, rfl, reached⟩

theorem inside_stays (p : Parser) : Meets inside p (fun _ p' => p' = p) anyFault := by
  refine (source_stays p).bind ?_
  rintro src p rfl
  refine .into (.get_bind ?_)
  cases p.start with
  | some mark => exact rfl
  | none => trivial

theorem stringStatement?_other (other : ∀ value isOctal, ¬ p.Looks (.string value isOctal)) :
    Meets (stringStatement? reader) p (fun found p' => found = none ∧ p' = p) anyFault := by
  refine (inside_stays p).bind ?_
  rintro isInside p rfl
  refine .ite (fun _ => (lookahead_returns p).bind ?_) fun _ => ⟨rfl, rfl⟩
  rintro token p ⟨rfl, looked⟩
  split
  next value isOctal isString => exact absurd ⟨token, looked, isString⟩ (other value isOctal)
  next => exact ⟨rfl, rfl⟩

def Together (w : Pairing) (tied : Prop) (lists : List Node → List Node → Prop)
    (answer : (List Node × Option (Option Token)) ⊕ List Node) (p : Parser)
    (answer' : (List Node × Option (Option Token)) ⊕ List Node) (q : Parser) : Prop :=
  ∃ next next', answer = .inl next ∧ answer' = .inl next' ∧ w.Scripting tied lists next p next' q

section

variable (mates : w.Mates reader reader')
  (snoc : ∀ {l l' : List Node} (item : Node), lists l l' → lists (l ++ [item]) (l' ++ [item]))

include mates snoc

theorem items_together (near : w.Near False .loose p q) (same : lists body body') :
    Mirrors .exhausted (scriptRound reader check (body, none)) (scriptRound reader' check' (body', none))
      p q (w.Together tied lists) := by
  rw [scriptRound_none, scriptRound_none]
  refine .map ((itemRound_mirrors mates near body body').imp ?_)
  rintro _ p _ q ⟨item, rfl, rfl, reached⟩
  refine ⟨(body ++ [item], none), (body' ++ [item], none), rfl, rfl, ?_⟩
  refine .of_reached (snoc item same) (fun _ _ found => nomatch found) (fun _ => rfl) ?_
  exact reached.loosen id id

theorem directives_together (checks : ChecksAlike tied check check') (near : w.Near False .loose p q)
    (same : lists body body') (octals : tied → octal'.isSome → octal.isSome) :
    Mirrors .exhausted (scriptRound reader check (body, some octal))
      (scriptRound reader' check' (body', some octal')) p q (w.Together tied lists) := by
  rw [scriptRound_some, scriptRound_some]
  have rounds : Mirrors .exhausted (directiveRound reader check (body, octal))
      (directiveRound reader' check' (body', octal')) p q _ :=
    directiveRound_mirrors mates snoc checks near same octals
  refine .map (rounds.imp ?_)
  rintro (⟨l, o⟩ | l) p (⟨l', o'⟩ | l') q met
  · refine ⟨(l, some o), (l', some o'), rfl, rfl, .of_reached met.lists ?_ nofun met.reached⟩
    rintro _ _ ⟨⟩ ⟨⟩
    exact met.octal
  · exact met.elim
  · exact met.elim
  · refine ⟨(l, none), (l', none), rfl, rfl, ?_⟩
    exact .of_reached met.1 (fun _ _ found => nomatch found) (fun _ => rfl) met.2

theorem directive_item_together {value : Text} {isOctal : Bool}
    (calm : ∀ octal p, Meets (check octal) p (fun _ p' => p' = p) anyFault)
    (near : w.Near False .loose p q) (looks : p.Looks (.string value isOctal)) (same : lists body body') :
    Mirrors .exhausted (scriptRound reader check (body, some octal))
      (scriptRound reader' check' (body', none)) p q (w.Together tied lists) := by
  rw [scriptRound_some, scriptRound_none, directiveRound_eq]
  refine .map ?_
  rw [← bind_pure (itemRound reader' body')]
  refine (stringStatement?_item mates near looks body').bind ?_
  rintro _ p _ q ⟨token, statement, text, rfl, rfl, reached⟩
  have closed {phase : Option (Option Token)} {p' : Parser} (reached : w.Reached False True .loose p' q) :
      w.Scripting tied lists (body ++ [statement], phase) p' (body' ++ [statement], none) q :=
    .of_reached (snoc statement same) (fun _ _ _ found => nomatch found) (fun _ => rfl) reached
  refine .of_pure ?_
  cases text with
  | none => exact ⟨_, _, rfl, rfl, closed reached⟩
  | some text =>
    refine .ite (fun _ => ?_) fun _ => ⟨_, _, rfl, rfl, closed reached⟩
    refine .modify_bind ((calm octal _).bind ?_)
    rintro _ _ rfl
    have alike := reached.alike
    refine ⟨_, _, rfl, rfl, closed ?_⟩
    exact reached.still ⟨rfl, rfl, rfl, rfl, id, id⟩ (.refl q) id
      ⟨alike.context, alike.settings, fun _ => rfl, alike.cover, alike.targets⟩

/-- A round on the left goes with one on the right, unless it only closes the directives. -/
theorem scriptRound_onward (calm : ∀ octal p, Meets (check octal) p (fun _ p' => p' = p) anyFault)
    (checks : ChecksAlike tied check check')
    (scripting : w.Scripting tied lists state p state' q)
    (run : scriptRound reader check state p = .ok (.inl next) p') :
    w.Scripting tied lists next p' state' q ∨
      Meets (scriptRound reader' check' state') q (fun answer q' => ∃ next', answer = .inl next' ∧
        w.Scripting tied lists next p' next' q') (only .exhausted) := by
  have goes (together : Mirrors .exhausted (scriptRound reader check state)
      (scriptRound reader' check' state') p q (w.Together tied lists)) :
      Meets (scriptRound reader' check' state') q (fun answer q' => ∃ next', answer = .inl next' ∧
        w.Scripting tied lists next p' next' q') (only .exhausted) := by
    refine (together _ _ run).imp ?_
    rintro _ q' ⟨_, next', ⟨⟩, rfl, scripting⟩
    exact ⟨next', rfl, scripting⟩
  obtain ⟨body, phase⟩ := state
  obtain ⟨body', phase'⟩ := state'
  obtain ⟨same, octals, reached⟩ := scripting
  rcases reached with ⟨near, closes⟩ | parted
  -- Four cases while both are near: the phases agree, or a directive of the left goes with an item, or the
  -- left closes its directives alone. Where the parsers have parted, the left has nothing more to read.
  · cases phase with
    | none =>
      obtain rfl : phase' = none := closes rfl
      exact .inr (goes (items_together mates snoc near same))
    | some octal =>
      cases phase' with
      | some octal' =>
        exact .inr (goes (directives_together mates snoc checks near same (octals octal octal' rfl rfl)))
      | none =>
        by_cases atString : ∃ value isOctal, p.Looks (.string value isOctal)
        · obtain ⟨value, isOctal, looks⟩ := atString
          exact .inr (goes (directive_item_together mates snoc calm near looks same))
        · have stays : Meets (scriptRound reader check (body, some octal)) p
              (fun answer p' => answer = .inl (body, none) ∧ p' = p) anyFault := by
            rw [scriptRound_some, directiveRound_eq]
            refine Meets.map_iff.mpr ((stringStatement?_other fun value isOctal looks =>
              atString ⟨value, isOctal, looks⟩).bind ?_)
            rintro _ _ ⟨rfl, rfl⟩
            exact ⟨rfl, rfl⟩
          obtain ⟨⟨⟩, rfl⟩ := stays.of_ok run
          exact .inl ⟨same, (fun _ _ found => nomatch found), .inl ⟨near, fun _ => rfl⟩⟩
  · cases phase with
    | none =>
      have ends := (scriptRound_ended body parted.ended).of_ok run
      exact nomatch ends.1
    | some octal =>
      have stays : Meets (scriptRound reader check (body, some octal)) p
          (fun answer p' => answer = .inl (body, none) ∧ p' = p) anyFault := by
        rw [scriptRound_some]
        refine Meets.map_iff.mpr ((directiveRound_ended _ parted.ended).imp ?_)
        rintro _ _ ⟨rfl, rfl⟩
        exact ⟨rfl, rfl⟩
      obtain ⟨⟨⟩, rfl⟩ := stays.of_ok run
      exact .inl ⟨same, (fun _ _ found => nomatch found), .inr parted⟩

omit mates snoc in
theorem scriptRound_finish {found : List Node} (scripting : w.Scripting tied lists state p state' q)
    (run : scriptRound reader check state p = .ok (.inr found) p') :
    lists found state'.1 ∧ w.Parted .loose p' q := by
  obtain ⟨body, phase⟩ := state
  obtain ⟨same, -, reached⟩ := scripting
  cases phase with
  | some octal =>
    -- Closing the directives is no end of the script.
    have goes : Meets (scriptRound reader check (body, some octal)) p
        (fun answer _ => ∃ next, answer = .inl next) anyFault := by
      rw [scriptRound_some]
      exact Meets.map_iff.mpr (Meets.any.imp fun answer _ _ => ⟨_, rfl⟩)
    obtain ⟨_, impossible⟩ := goes.of_ok run
    cases impossible
  | none =>
    rcases reached with ⟨near, -⟩ | parted
    · obtain ⟨t, u, facing⟩ := near.tokens
      have goes : Meets (scriptRound reader check (body, none)) p
          (fun answer _ => ∃ next, answer = .inl next) anyFault := by
        rw [scriptRound_none]
        refine Meets.map_iff.mpr (facing.left.inside_ite facing.notEnd ?_)
        exact .past fun _ _ => ⟨_, rfl⟩
      obtain ⟨_, impossible⟩ := goes.of_ok run
      cases impossible
    · obtain ⟨⟨⟩, rfl⟩ := (scriptRound_ended body parted.ended).of_ok run
      exact ⟨same, parted⟩

theorem script_onto {rounds : Nat} (known : List Node → Parser → Prop)
    (later : List Node → Parser → List Node → Parser → Prop)
    (calm : ∀ octal p, Meets (check octal) p (fun _ p' => p' = p) anyFault)
    (checks : ChecksAlike tied check check')
    (finish : ∀ {body : List Node} {state' : List Node × Option (Option Token)} {p q : Parser},
      lists body state'.1 → w.Parted .loose p q → known body p →
      ∀ rounds, Meets (scriptFrom reader' check' rounds state') q (later body p) (only .exhausted))
    (scripting : w.Scripting tied lists state p state' q)
    (run : scriptFrom reader check rounds state p = .ok body p') (isKnown : known body p')
    (rounds' : Nat) :
    Meets (scriptFrom reader' check' rounds' state') q (later body p') (only .exhausted) := by
  refine Mirrors.iterate_onto (w.Scripting tied lists) (fun state p state' q next p' scripting run =>
    scriptRound_onward mates snoc calm checks scripting run) ?_ rounds rounds' state p state' q body p'
    scripting run isKnown
  intro state p state' q found p' scripting run isKnown
  obtain ⟨same, parted⟩ := scriptRound_finish scripting run
  exact finish same parted isKnown

end

end Pairing

/-! ### Two scripts with a common end -/

structure Parser.AtEnd (src : Source) (q : Parser) : Prop where
  source : q.source = some src
  start : q.start.map (·.index) = some src.size
  lookahead : ∃ token, q.lookahead = some token ∧ token.lexeme = .endOfSource

namespace Parser.AtEnd

variable {src : Source}

theorem still (atEnd : q.AtEnd src) (still : q.Still p) : p.AtEnd src where
  source := still.source.trans atEnd.source
  start := still.start ▸ atEnd.start
  lookahead := still.lookahead ▸ atEnd.lookahead

/-- Behind the semicolon of its sentinel a source is at its end. -/
theorem of_lex {length : Nat} (ends : Sealed src length) (source : q.source = some src)
    (here : q.cursor.index = length + 4) :
    Meets lex q (fun _ q' => q'.AtEnd src) (only .exhausted) := by
  refine lex_spent source (Layout.skipAll_last (here ▸ Pairing.ahead_of_sealed ends) (by decide) ?_)
  refine Scan.atEnd_ite (fun _ => ?_) fun inside => absurd inside (Nat.lt_irrefl _)
  exact ⟨source, rfl, _, rfl, rfl⟩

theorem inside_ite {α : Type} {yes no : ParseM α} {after : α → Parser → Prop}
    {fails : Fault → Parser → Prop} (atEnd : q.AtEnd src) (leaves : Meets no q after fails) :
    Meets (do if ← inside then yes else no) q after fails := by
  obtain ⟨mark, start, index⟩ := Option.map_eq_some_iff.mp atEnd.start
  unfold inside Parse.source startMark
  simp only [bind_assoc]
  refine .get_bind ?_
  simp only [atEnd.source, pure_bind]
  refine .get_bind ?_
  simp only [start, pure_bind, index, Nat.lt_irrefl, decide_false]
  exact leaves

theorem script_ends (atEnd : q.AtEnd src) (rounds : Nat) (state : List Node × Option (Option Token)) :
    Meets (scriptFrom reader check rounds state) q (fun body _ => body = state.1)
      (only .exhausted) := by
  induction rounds generalizing state with
  | zero => exact rfl
  | succ rounds ih =>
    obtain ⟨body, phase⟩ := state
    refine .into ?_
    cases phase with
    | none =>
      rw [scriptRound_none]
      exact Meets.map_iff.mpr (atEnd.inside_ite rfl)
    | some octal =>
      -- One round closes the directives, the next one ends the script.
      rw [scriptRound_some]
      exact Meets.map_iff.mpr (atEnd.inside_ite (ih (body, none)))

end Parser.AtEnd

theorem Source.getElem?_shared {left right : Source} {before before' shared rest : Text}
    (isLeft : left.toList = before ++ shared) (isRight : right.toList = before' ++ (shared ++ rest))
    {i j : Nat} {ch : CodePoint} (behind : before.length ≤ i)
    (place : i + before'.length = j + before.length) (found : left[i]? = some ch) :
    right[j]? = some ch := by
  obtain ⟨offset, rfl⟩ := Nat.exists_eq_add_of_le behind
  obtain rfl : j = before'.length + offset := by omega
  rw [← Array.getElem?_toList, isLeft, List.getElem?_append_right behind,
    Nat.add_sub_cancel_left] at found
  rw [← Array.getElem?_toList, isRight, List.getElem?_append_right (Nat.le_add_right ..),
    Nat.add_sub_cancel_left, List.getElem?_append_left (List.getElem?_eq_some_iff.mp found).1]
  exact found

/-- The program on the left ends with a text that stands on the right as well, together with what is
put after every program. -/
def Window.shared (before code before' rest : Text) (right : Source)
    (isRight : right.toList = before' ++ (code ++ Parser.sentinel ++ rest)) (outer : List Brace) :
    Window where
  left := Parser.sourceOf (before ++ code)
  right
  leftBase := before.length
  rightBase := before'.length
  length := (before ++ code).length
  outer
  ends := .ofText _
  chars := Source.getElem?_shared (List.append_assoc ..) isRight

namespace Pairing

/-- Two sources that end together. -/
def toEnd (w : Window) {length : Nat} (ends : Sealed w.right length)
    (place : length + w.leftBase = w.length + w.rightBase) : Pairing :=
  { w with
    beyond := Parser.AtEnd w.right
    stays := fun atEnd still _ => atEnd.still still
    onward := fun source here _ => Parser.AtEnd.of_lex ends source (by omega)
    separate := fun atEnd => by
      obtain ⟨token, looked, isEnd⟩ := atEnd.lookahead
      exact ⟨token, looked, by rw [isEnd]; nofun⟩ }

end Pairing

/-! ### Programs -/

variable {settings : Settings} {code : Text}

def Grammar.readerFor (code : Text) : Reader :=
  readerOf (depthFor (some (Parser.sourceOf code)))

/-- A program that is read has a first token and a script from there on. -/
theorem program_ok {node : Node} {q : Parser}
    (run : Parser.program { settings } code = .ok node q) :
    ∃ p body, peek (Parser.begin { settings } code) = .ok () p ∧
      scriptBody (readerFor code) p = .ok body q ∧ node = .program body := by
  unfold Parser.program at run
  split at run
  next node' q' run' =>
    cases run
    obtain ⟨_, _, got, run⟩ := bind_ok_iff.mp run'
    cases got
    obtain ⟨_, p, peeked, run⟩ := bind_ok_iff.mp run
    obtain ⟨body, q, script, run⟩ := bind_ok_iff.mp run
    cases run
    exact ⟨p, body, peeked, script, rfl⟩
  next => cases run
  next => cases run

theorem parse_ok {node : Node} (parsed : parse settings code = .ok node) :
    ∃ p q body, peek (Parser.begin { settings } code) = .ok () p ∧
      scriptBody (readerFor code) p = .ok body q ∧ node = .program body := by
  unfold parse at parsed
  split at parsed
  next node' q run =>
    cases parsed
    obtain ⟨p, body, peeked, script, rfl⟩ := program_ok run
    exact ⟨p, q, body, peeked, script, rfl⟩
  next => cases parsed

theorem parse_of_meets {good : List Node → Prop} (met : Meets peek (Parser.begin { settings } code)
      (fun _ q => Meets (scriptBody (readerFor code)) q (fun found _ => good found)
        (only .exhausted)) (only .exhausted)) :
    ∃ body, parse settings code = .ok (.program body) ∧ good body := by
  have read : Meets (deep program) (Parser.begin { settings } code)
      (fun node _ => ∃ body, node = .program body ∧ good body) (only .exhausted) := by
    refine .get_bind (met.bind fun _ q script => ?_)
    exact script.bind fun found _ isGood => ⟨found, rfl, isGood⟩
  unfold parse Parser.program
  cases run : deep program (Parser.begin { settings } code) with
  | ok node q =>
    obtain ⟨body, same, isGood⟩ := read.of_ok run
    exact ⟨body, by rw [same], isGood⟩
  | error fault q =>
    -- Running out of rounds or of depth is no outcome of a program.
    have spent := read.of_error run
    have acceptable := (Parser.begin_meets { settings } code).of_error run
    rw [spent] at acceptable
    exact acceptable.elim

end EcmaScript
