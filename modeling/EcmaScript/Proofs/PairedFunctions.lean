import EcmaScript.Proofs.Outcomes
import EcmaScript.Proofs.Pairing

/-!
Bindings, functions and their bodies on both sides of a pairing. Strict code on the left refuses more
than the code on the right, never less: what the right side would refuse at the end of a function has
been refused on the left before.
-/

namespace EcmaScript

open Parse Grammar

variable {α β : Type} {w : Pairing} {k : Ties} {p q : Parser} {t u : Token} {seen : Prop}

/-! ### At the end of the source -/

namespace Parser.Ended

variable {src : Source} {m : ParseM α} {l : Int}

theorem at_end (ended : p.Ended src) : p.At src src.size p.level := by
  obtain ⟨token, coherent, isEnd⟩ := ended
  exact ⟨⟨token, coherent⟩, by rw [coherent.place_eq, (coherent.ended isEnd).1], rfl⟩

theorem never (ended : p.Ended src) (goes : Goes src src.size p.level m (src.size + 1) l) :
    Meets m p (fun _ _ => False) anyFault := by
  refine (goes p ended.at_end).mono (fun _ q there => ?_) fun _ _ _ => trivial
  have place := there.place
  have bound := there.place_le_size
  omega

theorem stays (ended : p.Ended src) (goes : Goes src src.size p.level m src.size l) :
    Meets m p (fun _ q => q.Ended src) anyFault := by
  refine (goes p ended.at_end).mono (fun _ q there => ?_) fun _ _ _ => trivial
  obtain ⟨token, coherent⟩ := there.coherent
  refine ⟨token, coherent, Classical.byContradiction fun notEnd => ?_⟩
  exact absurd there.place (Nat.not_le.mpr (coherent.place_lt_size_iff.mpr notEnd))

theorem inside_ite (ended : p.Ended src) {yes no : ParseM α} {after : α → Parser → Prop}
    (leaves : Meets no p after anyFault) :
    Meets (do if ← inside then yes else no) p after anyFault := by
  refine (inside_at ended.at_end).mono (fun _ _ met => met) (fun _ _ _ => trivial) |>.bind ?_
  rintro found _ ⟨rfl, isInside⟩
  have place := ended.at_end.place
  refine .ite (fun isTrue => ?_) fun _ => leaves
  have impossible := isInside.mp isTrue
  omega

end Parser.Ended

variable {f g : Formals Token}

namespace Pairing

structure Mates (w : Pairing) (reader reader' : Reader) : Prop where
  restores : Restores reader
  reliable : Reliable w.left (w.left.size + 1) reader
  assignment : ∀ {seen : Prop}, w.Agrees seen .full (reader .assignment) (reader' .assignment)
  unary : ∀ {seen : Prop}, w.Agrees seen .full (reader .unary) (reader' .unary)
  leftHandSide : ∀ {seen : Prop},
    w.Agrees seen .full (reader .leftHandSide) (reader' .leftHandSide)
  statement : ∀ {seen : Prop} {k : Ties}, w.Concludes seen k (reader .statement) (reader' .statement)
  listItem : ∀ {seen : Prop} {k : Ties}, w.Concludes seen k (reader .listItem) (reader' .listItem)

variable {reader reader' : Reader}

/-! ### Bindings -/

theorem bindingName_agrees : w.Agrees seen k bindingName bindingName := by
  refine fun p q near => (take_mirrors near).bind ?_
  rintro t p' u q' ⟨facing, advanced⟩
  rcases facing.lexeme with same | ⟨word, -, isWord, -⟩
  · rw [← same]
    cases lexeme : t.lexeme with
    | identifier name => exact .pure ⟨rfl, (advanced.near (by rw [lexeme]; nofun)).reached⟩
    | keyword word =>
      exact .of_never (.past fun _ _ => .ite (fun _ => trivial) fun _ => trivial)
    | _ => exact .of_never trivial
  · rw [isWord]
    exact .of_never (.past fun _ _ => .ite (fun _ => trivial) fun _ => trivial)

theorem pattern_agrees : w.Agrees seen k pattern pattern := by
  refine .ahead (fun lexeme t u left right _ => .of ?_) fun t u word _ isWord _ => ?_
  · rw [left, right]
    split
    · exact bindingName_agrees
    · exact .throw
    · exact .throw
    · exact .of_never fun _ => trivial
  · rw [isWord]
    exact .of_never fun _ => trivial

/-- The name that is read is the lookahead. -/
theorem bindingName_looks (p : Parser) :
    Meets bindingName p (fun name _ => p.Looks (.identifier name)) anyFault := by
  have taken : Meets take p (fun token _ => p.lookahead = some token) anyFault := by
    refine (lex_returns p).bind ?_
    rintro _ _ ⟨rfl, -⟩
    cases looked : p.lookahead with
    | some token => exact rfl
    | none => trivial
  refine taken.bind fun token _ looked => ?_
  split
  next name isName => exact ⟨token, looked, isName⟩
  next => exact .past fun _ _ => .ite (fun _ => trivial) fun _ => trivial
  next => trivial

theorem parameter_looks (p : Parser) :
    Meets (parameter reader) p (fun found _ => p.Looks (.identifier found.2.1)) anyFault := by
  have named : Meets pattern p (fun name _ => p.Looks (.identifier name)) anyFault := by
    refine (lookahead_returns p).bind ?_
    rintro token p ⟨rfl, -⟩
    split
    · exact bindingName_looks p
    · trivial
    · trivial
    · trivial
  refine (lookahead_returns p).bind ?_
  rintro token p ⟨rfl, -⟩
  refine .ite (fun _ => trivial) fun _ => .ite (fun _ => trivial) fun _ => .into ?_
  refine named.bind fun name _ looks => .past fun _ _ => .ite (fun _ => ?_) fun _ => looks
  exact .past fun _ _ => looks

/-! ### Parameters -/

section

variable (mates : w.Mates reader reader')
include mates

theorem initializer_agrees :
    w.Upon (.punctuator .assign) seen False k Eq (initializer reader) (initializer reader') :=
  .pass nofun (.isolated mates.assignment)

theorem patternAndDefault_agrees :
    w.Agrees seen k (patternAndDefault reader) (patternAndDefault reader') :=
  .next pattern_agrees fun _ =>
    .atMark (.next (initializer_agrees mates) fun _ => .pure rfl) (.pure rfl)

theorem parameter_relates :
    w.Relates seen False k (fun found found' => found.2 = found'.2) (parameter reader)
      (parameter reader') := by
  refine .tests (fun lexeme => (lexeme.isEllipsis, decide (lexeme = .endOfSource))) (fun _ _ => rfl)
    fun t u same => .of ?_
  obtain ⟨ellipsis, atEnd⟩ := Prod.mk.inj same
  rw [← ellipsis]
  refine .ite .throw fun p q near => .ite_iff (by simpa using atEnd) (fun _ => .throw) fun _ => ?_
  refine (patternAndDefault_agrees mates near).bind ?_
  rintro found p _ q ⟨rfl, reached⟩
  exact .pure ⟨rfl, reached⟩

theorem addParameter_reaches (near : w.Near seen k p q) (fetched : w.Fetched p q) (mirror : f.Mirror g) :
    w.Reaches False k Formals.Mirror (addParameter reader id f) (addParameter reader' id g) p q := by
  have keeps := parameter_keeps mates.restores p
  refine (((parameter_relates mates near).and_left keeps).and_left (parameter_looks p)).bind ?_
  rintro ⟨t, name, default⟩ p' ⟨u, _, _⟩ q' ⟨⟨⟨same, reached⟩, agrees⟩, token, looked, isName⟩
  cases same
  refine isStrict_bind reached.near fun stricter => .pure ⟨?_, reached⟩
  refine (mirror.declare stricter (fun strict _ => ?_) _ _).add _ _
  have strict' : p.isStrict = true := by
    unfold Parser.isStrict at strict ⊢
    rwa [← agrees.strict]
  exact fetched.unreserved strict' token name looked isName

theorem parameters_relates {restricted restricted' : Option Token}
    (refused : restricted'.isSome → restricted.isSome) :
    w.Relates seen False k Formals.Mirror (parameters reader id restricted)
      (parameters reader' id restricted') := by
  refine fun p q near => (expect_mirrors .openParen near nofun).bind fun _ p _ q ⟨near, fetched⟩ => ?_
  have empty : Formals.Mirror { firstRestricted := restricted } { firstRestricted := restricted' } :=
    ⟨rfl, rfl, rfl, fun held => .inl (refused (held.resolve_right nofun))⟩
  have closes {f g : Formals Token} (mirror : f.Mirror g) : w.Relates True False k Formals.Mirror
      (do expect .closeParen; pure f) (do expect .closeParen; pure g) :=
    .expect nofun (.pure mirror)
  refine atMark_ite near (fun _ => closes empty near) ?_
  refine Mirrors.bind (repeated_mirrors (fun (f : Formals Token) p (g : Formals Token) q =>
    f.Mirror g ∧ w.Near True k p q ∧ w.Fetched p q) ?_ ⟨empty, near, fetched⟩)
    fun f p g q (met : f.Mirror g ∧ w.Near True k p q) => closes met.1 met.2
  rintro f p g q ⟨mirror, near, fetched⟩
  refine inside_bind near ((addParameter_reaches mates near fetched mirror).bind ?_)
  rintro f p g q ⟨mirror, reached⟩
  refine atMark_ite reached.near (fun _ => .pure ⟨mirror, reached.near⟩) ?_
  refine (expect_mirrors .comma reached.near nofun).bind fun _ p _ q ⟨near, fetched⟩ => ?_
  exact .pure ⟨mirror, near, fetched⟩

end

end Pairing

/-! ### Directives -/

namespace Grammar

/-- At the end of the source there are no more directives. -/
theorem directiveRound_ended {src : Source} {reader : Reader} {check : Option Token → ParseM Unit}
    (state : List Node × Option Token) (ended : p.Ended src) :
    Meets (directiveRound reader check state) p (fun answer p' => answer = .inr state.1 ∧ p' = p)
      anyFault :=
  ended.inside_ite ⟨rfl, rfl⟩

end Grammar

namespace Pairing

variable {reader reader' : Reader} {check check' : Option Token → ParseM Unit}
variable {lists : List Node → List Node → Prop} {tied : Prop}

/-- What the rounds of both sides have in common: lists that go on in the same way, and octal
literals on the left wherever there are some on the right, if they matter. -/
structure Directing (w : Pairing) (seen : Prop) (k : Ties) (tied : Prop) (lists : List Node → List Node → Prop)
    (state : List Node × Option Token) (p : Parser) (state' : List Node × Option Token) (q : Parser) :
    Prop where
  lists : lists state.1 state'.1
  octal : tied → state'.2.isSome → state.2.isSome
  reached : w.Reached seen True k p q

/-- The text between the quotes is the same on both sides. -/
theorem Facing.quoted_eq (facing : w.Facing seen p q t u) :
    w.left.slice (t.start + 1) (t.stop - 1) = w.right.slice (u.start + 1) (u.stop - 1) := by
  have moved := facing.left.moved facing.notEnd
  have behind := facing.behind
  have start := facing.start
  have stop := facing.stop
  have bound := facing.left.stop_eq ▸ facing.left.bound
  exact w.slice_eq (by omega) (by omega) (by omega) (by omega)

theorem isDirective_bind {γ δ : Type} {statement : Node} {f : Bool → ParseM γ} {g : Bool → ParseM δ}
    {alike : γ → Parser → δ → Parser → Prop}
    (next : ∀ found, Mirrors .exhausted (f found) (g found) p q alike) :
    Mirrors .exhausted (isDirective statement >>= f) (isDirective statement >>= g) p q alike := by
  cases statement with
  | expressionStatement expression => exact next _
  | _ => exact .of_never trivial

theorem Reached.source_bind {γ δ : Type} {last : Prop} {f : Source → ParseM γ}
    {g : Source → ParseM δ} {alike : γ → Parser → δ → Parser → Prop} (reached : w.Reached seen last k p q)
    (next : Mirrors .exhausted (f w.left) (g w.right) p q alike) :
    Mirrors .exhausted (source >>= f) (source >>= g) p q alike := by
  rcases reached with near | ⟨-, parted⟩
  · obtain ⟨t, u, facing⟩ := near.tokens
    exact Pairing.source_bind facing next
  · obtain ⟨token, coherent, -⟩ := parted.ended
    unfold Parse.source
    rw [bind_assoc, bind_assoc]
    refine .get_bind ?_
    simp only [coherent.source, parted.source]
    exact next

/-- Where the strings to complain about are tied, the right side refuses one only if the left one does. -/
def ChecksAlike (tied : Prop) (check check' : Option Token → ParseM Unit) : Prop :=
  ∀ {octal octal' : Option Token} {p q : Parser}, (tied → octal'.isSome → octal.isSome) →
    Mirrors .exhausted (check octal) (check' octal') p q fun _ p' _ q' => p' = p ∧ q' = q

theorem directiveRound_mirrors (mates : w.Mates reader reader')
    (snoc : ∀ {l l' : List Node} (item : Node), lists l l' → lists (l ++ [item]) (l' ++ [item]))
    (checks : ChecksAlike tied check check')
    {state state' : List Node × Option Token} (near : w.Near seen k p q)
    (same : lists state.1 state'.1) (octal : tied → state'.2.isSome → state.2.isSome) :
    Mirrors .exhausted (directiveRound reader check state) (directiveRound reader' check' state') p q
      (Mirrors.Onward (w.Directing seen k tied lists) fun l p l' q =>
        lists l l' ∧ w.Reached seen True k p q) := by
  refine inside_bind near (.ite (fun _ => ?_) fun isFalse => absurd rfl isFalse)
  refine lookahead_bind near fun t u facing => ?_
  rcases facing.lexeme with sameLexeme | ⟨word, -, isWord, isName⟩
  · rw [← sameLexeme]
    split
    next value isOctal isString =>
      refine (mates.listItem near).agree fun statement p' q' reached => ?_
      have reached : w.Reached seen True k p' q' := reached.loosen id id
      have lists' := snoc statement same
      refine isDirective_bind fun found => .ite (fun _ => ?_) fun _ => .pure ⟨lists', reached⟩
      refine reached.source_bind ?_
      rw [← Facing.quoted_eq facing]
      refine .ite (fun _ => .modify_bind ?_) fun _ => .pure ⟨lists', ?_, reached⟩
      · refine (checks octal).bind ?_
        rintro _ _ _ _ ⟨rfl, rfl⟩
        have alike := reached.alike
        refine .pure ⟨lists', octal, ?_⟩
        exact reached.still ⟨rfl, rfl, rfl, rfl, id, id⟩ ⟨rfl, rfl, rfl, rfl, id, id⟩ nofun
          ⟨alike.context, alike.settings, fun _ => rfl, alike.cover, alike.targets⟩
      · dsimp only
        cases isOctal with
        | true =>
          intro _ _
          cases state.2 <;> rfl
        | false =>
          rw [if_neg (by decide), if_neg (by decide), Option.or_none, Option.or_none]
          exact octal
    next => exact .pure ⟨same, near.reached⟩
  · rw [isWord, isName]
    exact .pure ⟨same, near.reached⟩

theorem refuseOctal_mirrors {octal octal' : Option Token} (refused : octal'.isSome → octal.isSome) :
    Mirrors .exhausted (refuseOctal octal) (refuseOctal octal') p q fun _ p' _ q' => p' = p ∧ q' = q := by
  cases octal with
  | some token => exact .of_never trivial
  | none =>
    cases octal' with
    | some token => exact absurd (refused rfl) nofun
    | none => exact .pure ⟨rfl, rfl⟩

/-! ### Bodies -/

/-- The same answer as on the left, unless the source has come to its end there. -/
abbrev AgreesUnless (w : Pairing) (seen : Prop) (k : Ties) (m n : ParseM α) : Prop :=
  ∀ ⦃p q : Parser⦄, w.Near seen k p q → MirrorsUnless (Parser.Ended w.left) .exhausted m n p q
    fun a p' b q' => a = b ∧ w.Near True k p' q'

theorem closes_ended {src : Source} {f : Unit → ParseM β} (ended : p.Ended src) :
    Meets (expect .closeBrace >>= f) p (fun _ _ => False) anyFault :=
  (ended.never (expect_goes rfl)).bind fun _ _ impossible => impossible.elim

section

variable (mates : w.Mates reader reader')
include mates

theorem directives_unless : w.AgreesUnless True k (directives reader) (directives reader') := by
  intro p q near
  rw [directives_eq, directives_eq]
  refine repeated_unless (fun state p state' q =>
    (state.1 = state'.1 ∧ (state'.2.isSome → state.2.isSome)) ∧ w.Near True k p q) ?_ ?_
    ⟨⟨rfl, id⟩, near⟩
  · intro state p ended
    exact (directiveRound_ended state ended).imp fun _ p' met => met.2 ▸ ended
  · rintro state p state' q ⟨⟨same, octal⟩, near⟩
    refine Mirrors.unless ((directiveRound_mirrors mates (fun item same => by rw [same])
      (fun refused => refuseOctal_mirrors (refused trivial)) near same
      fun _ : True => octal).imp ?_)
    rintro (next | body) p' (next' | body') q' met
    · exact met.reached.imp (fun near => ⟨⟨met.lists, met.octal trivial⟩, near⟩) fun parted => parted.2.ended
    · exact met.elim
    · exact met.elim
    · exact met.2.imp (fun near => ⟨met.1, near⟩) fun parted => parted.2.ended

/-- One more item of a list of statements, which may have been the last of the program. -/
theorem nextItem_mirrors (near : w.Near True k p q) (statements : List Node) :
    Mirrors .exhausted (do
        let statement ← reader .listItem
        pure (.inl (statements ++ [statement]) : List Node ⊕ List Node))
      (do
        let statement ← reader' .listItem
        pure (.inl (statements ++ [statement]) : List Node ⊕ List Node)) p q
      fun answer p' answer' q' => Mirrors.Onward (fun a p b q => a = b ∧ w.Near True k p q)
        (fun a p b q => a = b ∧ w.Near True k p q) answer p' answer' q' ∨ p'.Ended w.left := by
  refine (mates.listItem near).bind ?_
  rintro statement p' _ q' ⟨rfl, near | ⟨-, parted⟩⟩
  · exact .pure (.inl ⟨rfl, near⟩)
  · exact .pure (.inr parted.ended)

theorem statementsFrom_unless (before : List Node) :
    w.AgreesUnless True k (statementsFrom reader before) (statementsFrom reader' before) := by
  refine fun p q near => repeated_unless (fun a p b q => a = b ∧ w.Near True k p q)
    (fun _ _ ended => ended.inside_ite ended) ?_ ⟨rfl, near⟩
  rintro statements p _ q ⟨rfl, near⟩
  refine Mirrors.unless (inside_bind near (.ite (fun _ => ?_) fun isFalse => absurd rfl isFalse))
  exact atMark_ite near (fun _ => .pure (.inl ⟨rfl, near⟩)) (nextItem_mirrors mates near statements)

end

theorem statementsFrom_ended {src : Source} (ended : p.Ended src) (before : List Node) :
    Meets (statementsFrom reader before) p (fun _ p' => p'.Ended src) anyFault := by
  refine repeated_returns (fun _ p => p.Ended src) (fun _ _ ended => ?_) ended
  exact ended.inside_ite ended

theorem Relates.unless {γ δ : Type} {m n : ParseM α} {f : α → ParseM γ} {g : α → ParseM δ}
    {later : γ → δ → Prop} (first : w.AgreesUnless seen k m n)
    (never : ∀ a p, p.Ended w.left → Meets (f a) p (fun _ _ => False) anyFault)
    (rest : ∀ a, w.Relates True False k later (f a) (g a)) :
    w.Relates seen False k later (m >>= f) (n >>= g) := by
  refine fun p q near => (first near).bind_never never ?_
  rintro a p _ q ⟨rfl, near⟩
  exact rest a near

theorem block_agrees (mates : w.Mates reader reader') :
    w.Agrees seen k (block reader) (block reader') :=
  .expect nofun <| .unless (statementsFrom_unless mates []) (fun _ _ => closes_ended) fun _ =>
    .expect nofun (.pure rfl)

theorem functionBody_agrees (mates : w.Mates reader reader') :
    w.Agrees seen k (functionBody reader) (functionBody reader') := by
  refine .expect nofun <| .unless (directives_unless mates) (fun body p ended => ?_) fun body => ?_
  · refine (ended.stays context_goes.goes).bind fun _ _ ended => ?_
    refine (ended.stays (changeContext_goes _).goes).bind fun _ _ ended => ?_
    exact (statementsFrom_ended ended body).bind fun _ _ => closes_ended
  refine .context fun outer => .changeContext ?_
  exact .unless (statementsFrom_unless mates body) (fun _ _ => closes_ended) fun _ =>
    .expect nofun (.changeContext (.pure rfl))

/-! ### Functions -/

theorem refuseRestricted_checks {message message' : Option Message} (mirror : f.Mirror g) :
    Checks k (refuseRestricted f message) (refuseRestricted g message') := by
  refine .isStrict fun strict strict' stricter => ?_
  cases strict with
  | false =>
    cases strict' with
    | false => exact .pure
    | true => exact absurd (stricter rfl) nofun
  | true =>
    rw [if_pos rfl]
    cases first : f.firstRestricted with
    | some token => exact fun _ _ _ => .of_never trivial
    | none =>
      cases stricted : f.stricted with
      | some token => exact fun _ _ _ => .of_never trivial
      | none =>
        have accepted : ¬ g.Refused := fun refused => by
          simpa [Formals.Refused, first, stricted] using mirror.refused refused
        simp only [Formals.Refused, not_or, Option.not_isSome_iff_eq_none] at accepted
        rw [accepted.1, accepted.2]
        cases strict' <;> exact .pure

theorem bodyThen_agrees {body body' : ParseM Node} {check check' : ParseM Unit}
    (bodies : w.Agrees seen k body body') (checks : Checks k check check') :
    w.Agrees seen k (bodyThen body check) (bodyThen body' check') := by
  refine fun p q near => .get_bind ((bodies near).agree fun result p' q' reached => ?_)
  refine (checks reached.alike).bind ?_
  rintro _ _ _ _ ⟨rfl, rfl⟩
  have near' := reached.near
  refine .modify_bind (.pure ⟨rfl, .inl ?_⟩)
  exact near'.still ⟨rfl, rfl, rfl, rfl, id, id⟩ ⟨rfl, rfl, rfl, rfl, id, id⟩
    ⟨near'.context, near'.settings, near.strict, near'.cover, near'.targets⟩

/-- What is refused on the right is refused on the left. -/
def SameName (found found' : Text × Option (Token × Message)) : Prop :=
  found.1 = found'.1 ∧ (found'.2.isSome → found.2.isSome)

theorem functionName_reaches (near : w.Near seen k p q) (fetched : w.Fetched p q) :
    w.Reaches False k SameName functionName functionName p q := by
  refine lookahead_bind near fun t u facing => ?_
  refine (((bindingName_agrees near).and_left (bindingName_keeps p)).and_left (bindingName_looks p)).bind ?_
  rintro name p' _ q' ⟨⟨⟨rfl, reached⟩, agrees⟩, token, looked, isName⟩
  refine isStrict_bind reached.near fun stricter => ?_
  by_cases strict : p'.isStrict = true
  · have strict' : p.isStrict = true := by
      unfold Parser.isStrict at strict ⊢
      rwa [← agrees.strict]
    have unreserved := fetched.unreserved strict' token name looked isName
    rw [if_pos strict]
    by_cases restricted : name.isRestricted = true
    · rw [if_pos restricted]
      exact .of_never trivial
    · simp only [restricted, unreserved, Bool.false_eq_true, if_false]
      cases q'.isStrict <;> exact .pure ⟨⟨rfl, id⟩, reached⟩
  · rw [if_neg strict, if_neg (mt stricter strict)]
    refine .ite (fun _ => .pure ⟨⟨rfl, fun _ => rfl⟩, reached⟩) fun _ => ?_
    exact .ite (fun _ => .pure ⟨⟨rfl, fun _ => rfl⟩, reached⟩) fun _ => .pure ⟨⟨rfl, id⟩, reached⟩

/-- What two functions are made of, before defaults that do not matter are left out. -/
def SameFunction (found found' : Option Node × Formals Token × Node) : Prop :=
  found.1 = found'.1 ∧ found.2.1.Mirror found'.2.1 ∧ found.2.2 = found'.2.2

section

variable (mates : w.Mates reader reader')
include mates

theorem functionTail_reaches (nameRequired : Bool) (near : w.Near seen k p q) (fetched : w.Fetched p q) :
    w.Reaches False k SameFunction (functionTail reader nameRequired)
      (functionTail reader' nameRequired) p q := by
  -- What follows the name, or its absence.
  have rest {seen : Prop} {name name' : Option (Text × Option (Token × Message))}
      (same : name.map Prod.fst = name'.map Prod.fst)
      (refused : (name'.bind Prod.snd).isSome → (name.bind Prod.snd).isSome) :
      w.Relates seen False k SameFunction (functionRest reader name) (functionRest reader' name') := by
    refine .bind (parameters_relates mates (by simpa only [Option.isSome_map] using refused))
      fun f g mirror => .next (bodyThen_agrees (functionBody_agrees mates)
        (refuseRestricted_checks mirror)) fun body => .pure ⟨?_, mirror, rfl⟩
    rw [← Option.map_map, ← Option.map_map, same]
  have named : w.Reaches False k (fun name name' => name.map Prod.fst = name'.map Prod.fst ∧
      ((name'.bind Prod.snd).isSome → (name.bind Prod.snd).isSome))
      (some <$> functionName) (some <$> functionName) p q :=
    .map ((functionName_reaches near fetched).imp fun _ _ _ _ ⟨same, reached⟩ =>
      ⟨⟨congrArg some same.1, same.2⟩, reached⟩)
  refine .ite (fun _ => ?_) fun _ => atMark_ite near (fun _ => rest rfl id near) ?_
  · exact named.bind fun _ _ _ _ ⟨same, reached⟩ => rest same.1 same.2 reached.near
  · exact named.bind fun _ _ _ _ ⟨same, reached⟩ => rest same.1 same.2 reached.near

theorem functionDeclaration_agrees (nameRequired : Bool) : w.Agrees seen k
    (functionDeclaration reader nameRequired) (functionDeclaration reader' nameRequired) := by
  refine fun p q near => (expectKeyword_mirrors .function near (by decide)).bind fun _ p _ q met => ?_
  refine (functionTail_reaches mates nameRequired met.1 met.2).bind ?_
  rintro ⟨name, f, body⟩ p' ⟨_, g, _⟩ q' ⟨⟨rfl, mirror, rfl⟩, reached⟩
  refine .pure ⟨?_, reached⟩
  rw [mirror.params, mirror.effectiveDefaults]

theorem functionExpression_agrees :
    w.Agrees seen k (functionExpression reader) (functionExpression reader') := by
  refine fun p q near => (expectKeyword_mirrors .function near (by decide)).bind fun _ p _ q met => ?_
  refine (functionTail_reaches mates false met.1 met.2).bind ?_
  rintro ⟨name, f, body⟩ p' ⟨_, g, _⟩ q' ⟨⟨rfl, mirror, rfl⟩, reached⟩
  refine .pure ⟨?_, reached⟩
  rw [mirror.params, mirror.effectiveDefaults]

theorem methodOf_agrees (mirror : f.Mirror g) :
    w.Agrees seen .full (methodOf reader f) (methodOf reader' g) := by
  have body : w.Agrees seen .full (methodBody reader (refuseRestricted f f.message))
      (methodBody reader' (refuseRestricted g g.message)) :=
    .expressionOnly (bodyThen_agrees (.isolated (functionBody_agrees mates))
      (refuseRestricted_checks mirror))
  refine .next body fun result => .pure ?_
  rw [mirror.params, mirror.effectiveDefaults]

theorem method_agrees : w.Agrees seen .full (method reader) (method reader') :=
  .bind (parameters_relates mates id) fun _ _ mirror => methodOf_agrees mates mirror

end

end Pairing

end EcmaScript
