import EcmaScript.Proofs.Judgements
import EcmaScript.Proofs.Scope

/-!
Every rule of the grammar puts the context back, and what it reads obeys the scope of this context. The
two go together: a rule that starts in a context reads a tree whose jumps are lawful there, the rules that
change the context do so exactly for the parts that the tree puts in a frame, and they take the change back
again. Expressions are closed, since the only statements that they hold are those in function bodies.
Only strictness may leak out of such a body, and it is put back behind it.
-/

namespace EcmaScript

open Parse Node

variable {α β : Type}

/-! ### Scopes -/

/-- A statement obeys the scope of its context, and a mere expression obeys every scope. -/
structure Node.Stated (c : Context) (node : Node) : Prop where
  obeys : node.Obeys c.scope
  closed : ∀ inner, node = .expressionStatement inner → inner.Closed

namespace Node

theorem Closed.stated {c : Context} {node : Node} (closed : node.Closed) : node.Stated c where
  obeys := closed _
  closed := by
    rintro inner rfl
    exact closed.part rfl inner (by simp)

theorem closed_of_isPlain {node : Node} (plain : node.isPlain = true)
    (closed : ∀ part ∈ node.usedParts, part.Closed) : node.Closed := by
  rw [usedParts_of_isPlain plain] at closed
  unfold isPlain at plain
  split at plain
  all_goals first
    | exact closed_of_leaf (fun _ => trivial) rfl
    | exact .of_bare (fun _ => trivial) rfl (by simpa [parts] using closed)
    | cases plain

theorem closed_of_function {node inner : Node} {head : List Node}
    (function : node.function? = some (head, inner)) (closed : ∀ part ∈ head, part.Closed)
    (obeys : inner.Obeys { inFunction := true }) : node.Closed := by
  cases node <;> cases function
  all_goals exact .of_function (fun _ => trivial) rfl closed obeys

theorem stated_of_isCompound {c : Context} {node : Node} (compound : node.isCompound = true)
    (stated : ∀ part ∈ node.usedParts, part.Stated c) : node.Stated c := by
  rw [usedParts_of_isCompound compound] at stated
  have obey : ∀ part ∈ node.parts.map Prod.snd, part.Obeys c.scope :=
    fun part member => (stated part member).obeys
  constructor
  · cases node <;> cases compound
    all_goals exact .of_bare trivial rfl (by simpa [parts] using obey)
  · rintro inner rfl
    cases compound

theorem stated_of_loop {c : Context} {node inner : Node} {head : List Node}
    (loop : node.loop? = some (head, inner)) (closed : ∀ part ∈ head, part.Closed)
    (stated : inner.Stated { c with inIteration := true }) : node.Stated c := by
  have parts : node.parts = bare head ++ [inner].map fun part => (some .loopBody, part) := by
    cases node <;> cases loop <;> rfl
  have lawful : node.Lawful c.scope := by
    cases node <;> cases loop <;> trivial
  constructor
  · refine .of_framed .loopBody lawful parts (fun part member => closed part member _) ?_
    exact List.forall_mem_singleton.mpr stated.obeys
  · rintro inner rfl
    cases loop

end Node

/-- Jumps and labels are to be lawful where they stand. -/
def Trees.scoped : Trees where
  binding := True
  name _ := True
  expression := Node.Closed
  statement := Node.Stated
  body := Node.Obeys { inFunction := true }
  identifier := iff_of_true (closed_identifier _) trivial
  plain := closed_of_isPlain
  member closed := .of_bare (fun _ => trivial) rfl (by simpa [closed] using closed_identifier _)
  property {_ key _ computed _ _} keyed isKey closed := by
    have key_closed : key.Closed := by
      cases computed with
      | true => exact keyed rfl
      | false =>
        have isKey := isKey rfl
        cases key <;> first | exact closed_of_leaf (fun _ => trivial) rfl | cases isKey
    exact .of_bare (fun _ => trivial) rfl (by simpa using ⟨key_closed, closed⟩)
  function := closed_of_function
  target found closed := (partwise_closed.asPattern found).mp closed
  lift closed := closed.stated
  restate stated := by
    have closed := stated.closed _ rfl
    exact Node.Closed.stated (.of_bare (fun _ => trivial) rfl (by simpa using closed))
  compound := stated_of_isCompound
  loop := stated_of_loop
  switch closed stated := {
    obeys := .of_framed .switchClauses trivial (show _ = Node.bare [_] ++ _ from rfl)
      (by simpa using closed _) fun part member => (stated part member).obeys
    closed := nofun }
  labeled {_ text inner} _ fresh stated := {
    obeys := .of_framed (.label text) ⟨text, fresh trivial, rfl⟩
      (show _ = Node.bare [_] ++ [inner].map _ from rfl) (by simpa using closed_identifier text _)
      (List.forall_mem_singleton.mpr stated.obeys)
    closed := nofun }
  returned inBody closed := {
    obeys := .of_bare (inBody trivial) rfl (by simpa using fun part member => closed part member _)
    closed := nofun }
  broken {_ label} targets lawful := {
    obeys := by
      cases label with
      | none => exact .of_bare (Bool.or_eq_true_iff.mp (lawful trivial rfl)) rfl (by simp)
      | some text =>
        refine .of_bare ⟨text, (targets text rfl).2 trivial, rfl⟩ rfl ?_
        simpa using closed_identifier text _
    closed := nofun }
  continued {_ label} targets lawful := {
    obeys := by
      cases label with
      | none => exact .of_bare (lawful trivial rfl) rfl (by simp)
      | some text =>
        refine .of_bare ⟨text, (targets text rfl).2 trivial, rfl⟩ rfl ?_
        simpa using closed_identifier text _
    closed := nofun }
  bodied stated := .of_bare trivial rfl fun part member => (stated part member).obeys

/-! ### Context and strictness -/

/-- The context is the same, and where code may not become stricter, so is strictness. -/
structure Situation.Kept (s : Situation) (p q : Parser) : Prop where
  context : q.context = p.context
  strict : s.loose = false → q.strict = p.strict

theorem Parser.Agrees.kept {s : Situation} {p q : Parser} (agrees : p.Agrees q) : s.Kept p q :=
  ⟨agrees.context, fun _ => agrees.strict⟩

theorem Situation.Kept.trans {s : Situation} {p q r : Parser} (first : s.Kept p q) (second : s.Kept q r) :
    s.Kept p r :=
  ⟨second.context.trans first.context, fun firm => (second.strict firm).trans (first.strict firm)⟩

/-- To leave context and strictness as they were is a judgement of parsers that are in the context of the
situation. -/
def keeping : Judgement where
  toTrees := .scoped
  known _ := True
  Holds s p := ∀ c, p.context = some c → c = s.context
  At s p m answers := (∀ c, p.context = some c → c = s.context) →
    Meets m p (fun a q => answers a ∧ s.Kept p q) anyFault
  named _ _ := trivial
  lookahead _ _ := trivial
  cover _ _ := trivial
  bound _ holds found := holds _ found
  pure _ answered _ := ⟨answered, (Parser.Agrees.refl _).kept⟩
  bind := by
    intro α β s p m f answers later first next holds
    refine .into (Meets.of_returns fun a q run => ?_)
    have met := (first holds).of_ok run
    obtain ⟨answered, kept⟩ := met
    have holds' : ∀ c, q.context = some c → c = s.context := kept.context ▸ holds
    apply (next a q run answered holds' holds').imp
    rintro b r ⟨answered', kept'⟩
    exact ⟨answered', kept.trans kept'⟩
  get _ _ := ⟨rfl, (Parser.Agrees.refl _).kept⟩
  changed _ unmoved _ _ := ⟨trivial, unmoved.context, fun _ => unmoved.strict⟩
  relocated _ _ := ⟨trivial, rfl, fun _ => rfl⟩
  lex _ _ := ((lex_returns _).and_returns (lex_keeps _)).imp fun _ _ met => ⟨met.1.1, met.2.kept⟩
  rescan := by
    intro s p t _ _ _ _
    have keeps : Keeps Parse.rescan := .bind startMark_keeps fun mark =>
      .bind (.modify fun _ => ⟨rfl, rfl⟩) fun _ => .bind regExp_keeps fun _ =>
        .bind drop_keeps fun _ => .pure _
    exact (keeps p).imp fun _ _ agrees => ⟨trivial, agrees.kept⟩
  other _ _ _ := trivial
  blames _ _ _ _ := trivial
  complains _ _ _ := trivial

open Parse Comparison in
/-- A change of the context is undone after a part that keeps it, and strictness is put back behind the
body of a function. -/
theorem keeping_scopes : keeping.comparison.Scopes where
  undone := by
    rintro α β _ _ s given part part' answers change restore f same _ takes base apart p q ⟨rfl, holds⟩ -
    apply (changeContext_returns change q).bind
    rintro _ q₁ ⟨c, found, context₁, strict₁⟩
    obtain rfl := holds c found
    have holds₁ : ∀ c, q₁.context = some c → c = change s.context := by simp [context₁]
    have inner : Meets part q₁ (fun a r => (Same fun a => answers (f a)) a a ∧ s.Kept q₁ r) anyFault :=
      (takes base apart q₁ q₁ ⟨rfl, holds₁⟩ holds₁).imp fun _ _ met => ⟨met.1, met.2.context, met.2.strict⟩
    apply inner.bind
    rintro a q₂ ⟨⟨-, answered⟩, kept⟩
    apply (changeContext_returns restore q₂).bind
    rintro _ q₃ ⟨c, found₂, context₃, strict₃⟩
    rw [kept.context, context₁] at found₂
    obtain rfl := Option.some.inj found₂
    refine ⟨⟨rfl, answered⟩, ?_, fun firm => ?_⟩
    · rw [context₃, same trivial, found]
    · rw [strict₃, kept.strict firm, strict₁]
  bodies := by
    rintro s body body' check check' answers upholds checks base apart p q ⟨rfl, holds⟩ -
    refine .get_bind ?_
    have first := upholds base apart q q ⟨rfl, holds⟩ holds
    refine first.bind fun a q₁ met => ?_
    obtain ⟨⟨-, answered⟩, kept⟩ := met
    have holds₁ : ∀ c, q₁.context = some c → c = s.context := kept.context ▸ holds
    have second := checks base apart q₁ q₁ ⟨rfl, holds₁⟩ holds₁
    refine second.bind fun _ q₂ met => ?_
    exact .into (Meets.modify_iff.mpr
      ⟨⟨rfl, answered⟩, met.2.context.trans kept.context, fun _ => rfl⟩)
  stricter loose := Judgement.maintains fun p holds _ => ⟨trivial, rfl, fun firm => by simp [loose] at firm⟩

/-- The discipline of the context. -/
def restorative : Discipline where
  toComparison := keeping.comparison
  places := keeping.places
  scopes := keeping_scopes

theorem Keeps.of_takes [Bears α] {m n : ParseM α} {alike : Context → α → α → Prop}
    (takes : ∀ {c}, restorative.Takes { context := c } [] m n (alike c)) : Keeps m := by
  intro p
  have holds : ∀ c, p.context = some c → c = p.context.getD {} := by simp +contextual
  exact (takes [] false p p ⟨rfl, holds⟩ holds).imp fun _ _ met => ⟨met.2.context, met.2.strict rfl⟩

namespace Grammar

open Parse Discipline

def Restores (reader : Reader) : Prop :=
  restorative.Trusts reader reader

variable {reader : Reader}

theorem Restores.keeps (restores : Restores reader) (goal : Goal) : Keeps (reader goal) :=
  .of_takes (restores goal _)

theorem readerOf_restores (depth : Nat) : Restores (readerOf depth) :=
  readerOf_trusts depth depth

/-! ### Rules that others refer to -/

theorem isDirective_keeps (statement : Node) : Keeps (isDirective statement) :=
  .of_takes (Comparison.isDirective_upholds statement)

theorem bindingName_keeps : Keeps bindingName :=
  .of_takes bindingName_upholds

theorem bindingIdentifier_keeps : Keeps bindingIdentifier :=
  .of_takes bindingIdentifier_reads

theorem parameter_keeps (restores : Restores reader) : Keeps (parameter reader) :=
  .of_takes (parameter_takes restores)

theorem refuseOctalString_keeps (token : Token) : Keeps (refuseOctalString token) :=
  .of_takes (refuseOctalString_maintains ⟨rfl, trivial⟩)

section

variable (restores : Restores reader)
include restores

theorem propertyKey_keeps : Keeps (propertyKey reader) := by
  refine .bind take_keeps fun token => ?_
  split
  · exact .bind (refuseOctalString_keeps token) fun _ => .pure _
  · split
    · exact .pure _
    · refine .ite ?_ (unexpected_keeps _)
      refine .bind (isolated_keeps (restores.keeps .assignment)) fun key => ?_
      exact .bind (expect_keeps _) fun _ => .pure _

theorem patternWithDefault_keeps : Keeps (patternWithDefault reader) := by
  refine .bind (Keeps.of_takes (patternAndDefault_upholds restores)) fun found => ?_
  split
  · exact .pure _
  · exact .pure _

theorem propertyPattern_tail_keeps (computed : Bool) (key : Node) :
    Keeps (propertyPattern.tail reader computed key) :=
  .bind (expect_keeps _) fun _ => .bind (patternWithDefault_keeps restores) fun _ => .pure _

theorem propertyPattern_keeps : Keeps (propertyPattern reader) := by
  refine .bind (atMark_keeps _) fun computed => .bind lookahead_keeps fun token => ?_
  split
  · refine .bind bindingIdentifier_keeps fun key => .bind (atMark_keeps _) fun _ => .ite ?_ ?_
    · exact .bind drop_keeps fun _ => .bind (restores.keeps .assignment) fun _ => .pure _
    · refine .bind (atMark_keeps _) fun _ => .ite ?_ (.pure _)
      exact propertyPattern_tail_keeps restores computed key
  · refine .bind (propertyKey_keeps restores) fun key => ?_
    exact propertyPattern_tail_keeps restores computed key

end

end Grammar

end EcmaScript
