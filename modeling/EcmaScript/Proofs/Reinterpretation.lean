import EcmaScript.Grammar.Operation
import EcmaScript.Node.Reinterpretation
import EcmaScript.Proofs.Display

/-!
Rereading expressions as targets. On attribute trees this is a walk that changes types and stops at the
first thing that is no target; on syntax trees it is a function that finds a target or none. Main statement:
both do what the relation between expressions and targets says, and a missing target is all that they
complain of.
-/

namespace EcmaScript

/-- All objects in the tree hold properties. -/
def Node.Itemized (e : Node) : Prop :=
  ∀ frames items, e.Occurs frames (.objectExpression items) → ∀ item ∈ items,
    ∃ kind key computed value method shorthand,
      item = .property kind key computed value method shorthand

theorem Node.Itemized.part {e m : Node} (itemized : e.Itemized) (member : m ∈ e.parts.map Prod.snd) :
    m.Itemized := by
  obtain ⟨⟨frame, m⟩, listed, rfl⟩ := List.mem_map.mp member
  exact fun _ items occurs => itemized _ items (.deeper listed occurs)

namespace Reinterpretation

variable {α β γ δ : Type}

/-- The answer shows what was found, and a fault says that nothing was. -/
def Gives (shows : α → β) (found : Option α) (answer : β × Option Fault) : Prop :=
  match found with
  | some target => answer = (shows target, none)
  | none => answer.2 = some noTarget

theorem Gives.map {shows : α → β} {shows' : γ → δ} {found : Option α} {answer : β × Option Fault}
    (f : α → γ) (wrap : β → δ) (gives : Gives shows found answer)
    (same : ∀ target, shows' (f target) = wrap (shows target)) :
    Gives shows' (found.map f) (wrap answer.1, answer.2) := by
  cases found with
  | none => exact gives
  | some target =>
    obtain rfl := gives
    exact Prod.ext (same target).symm rfl

/-- A part is reread before the others, which are left alone if it is no target. -/
def before (part : Value × Option Fault) (wrap : Value → Value) (rest : List Value)
    (others : List Value × Option Fault) : List Value × Option Fault :=
  match part with
  | (v, some fault) => (wrap v :: rest, some fault)
  | (v, none) => (wrap v :: others.1, others.2)

theorem Gives.before {shows : α → List Value} {part : Value × Option Fault} {wrap : Value → Value}
    {rest : List Value} {others : List Value × Option Fault} {e : Option Node} {found reread : Option α}
    (f : Node → α → α) (first : Gives Node.toValue e part) (second : Gives shows found others)
    (joined : reread = e.bind fun t => found.map (f t))
    (same : ∀ t ts, shows (f t ts) = wrap t.toValue :: shows ts) :
    Gives shows reread (before part wrap rest others) := by
  subst joined
  obtain ⟨v, fault⟩ := part
  cases e with
  | none =>
    cases (first : fault = some noTarget)
    exact rfl
  | some t =>
    cases first
    exact second.map (f t) (wrap t.toValue :: ·) (same t)

theorem elements_cons (e : Node) (rest : List Value) :
    elements (e.toValue :: rest) = before (pattern e.toValue) id rest (elements rest) := by
  rw [Node.toValue_eq, elements]
  · obtain ⟨v, _ | fault⟩ := pattern (.node e.attributes) <;> rfl
  · nofun

/-- Properties are reread in the fourth of their attributes, the value. -/
theorem properties_cons {first second third : String × Value} {more : Attributes} (e : Node)
    (rest : List Value) (keys : first.1 ≠ "value" ∧ second.1 ≠ "value" ∧ third.1 ≠ "value") :
    properties (.node (first :: second :: third :: ("value", e.toValue) :: more) :: rest) =
      before (pattern e.toValue) (fun v => .node (first :: second :: third :: ("value", v) :: more)) rest
        (properties rest) := by
  rw [properties, partAt, if_neg keys.1, partAt, if_neg keys.2.1, partAt, if_neg keys.2.2, partAt, if_pos rfl]
  obtain ⟨v, _ | fault⟩ := pattern e.toValue <;> rfl

mutual

theorem pattern_gives {e : Node} (itemized : e.Itemized) :
    Gives Node.toValue e.asPattern? (pattern e.toValue) := by
  cases e
  case spreadElement argument =>
    exact (pattern_gives (itemized.part (m := argument) (by simp [Node.parts]))).map Node.restElement
      (fun v => Value.node [("type", .ofString "RestElement"), ("argument", v)]) fun _ => rfl
  case arrayExpression elements =>
    have each (m : Node) (member : some m ∈ elements) : m.Itemized :=
      itemized.part (by simpa [Node.parts] using member)
    exact (elements_gives each).map Node.arrayPattern
      (fun vs => Value.node [("type", .ofString "ArrayPattern"), ("elements", .list vs)]) fun _ => rfl
  case objectExpression properties =>
    have each (m : Node) (member : m ∈ properties) : m.Itemized :=
      itemized.part (by simpa [Node.parts] using member)
    exact (properties_gives each (itemized [] properties (.here _))).map Node.objectPattern
      (fun vs => Value.node [("type", .ofString "ObjectPattern"), ("properties", .list vs)]) fun _ => rfl
  case binaryExpression operator _ _ => cases operator <;> exact rfl
  all_goals exact rfl

theorem elements_gives {es : List (Option Node)} (each : ∀ m, some m ∈ es → m.Itemized) :
    Gives Node.holesValues (Node.elementsAsPatterns? es) (elements (Node.holesValues es)) := by
  match es with
  | [] => exact rfl
  | none :: rest =>
    exact (elements_gives fun m member => each m (List.mem_cons_of_mem _ member)).map (none :: ·)
      (Value.null :: ·) fun _ => rfl
  | some e :: rest =>
    have first := pattern_gives (each e List.mem_cons_self)
    have second := elements_gives fun m member => each m (List.mem_cons_of_mem _ member)
    rw [Node.elementsAsPatterns?, Node.holesValues, Node.optionValue, elements_cons]
    refine first.before (fun t ts => some t :: ts) second ?_ fun _ _ => rfl
    cases e.asPattern? <;> rfl

theorem properties_gives {es : List Node} (each : ∀ m ∈ es, m.Itemized)
    (listed : ∀ item ∈ es, ∃ kind key computed value method shorthand,
      item = .property kind key computed value method shorthand) :
    Gives Node.listValues (Node.propertiesAsPatterns? es) (properties (Node.listValues es)) := by
  match es with
  | [] => exact rfl
  | e :: rest =>
    obtain ⟨⟨kind, key, computed, value, method, shorthand, rfl⟩, others⟩ := List.forall_mem_cons.mp listed
    obtain ⟨itemized, rest_itemized⟩ := List.forall_mem_cons.mp each
    have first := pattern_gives (itemized.part (m := value) (by simp [Node.parts]))
    rw [Node.propertiesAsPatterns?, Node.listValues, Node.toValue, Node.element,
      properties_cons value _ (by simp)]
    refine first.before (fun t ts => .property kind key computed t method shorthand :: ts)
      (properties_gives rest_itemized others) ?_ fun _ _ => rfl
    cases value.asPattern? <;> rfl

end

/-- An expression is reread if and only if it is a target, and nothing but the types on the way to its
names, members and defaults changes. Otherwise the fault says that assigning to it is not supported. -/
theorem pattern_retypes (e : Node) (itemized : e.Itemized) :
    ((pattern e.toValue).2 = none ↔ ∃ t, e.Retypes t) ∧
    (∀ t, e.Retypes t → pattern e.toValue = (t.toValue, none) ∧ ∀ p, Grammar.reinterpreted e p = .ok t p) ∧
    ((¬∃ t, e.Retypes t) → (pattern e.toValue).2 = some noTarget ∧
      ∀ p, Grammar.reinterpreted e p = .error noTarget p) := by
  have gives := pattern_gives itemized
  simp only [← Node.asPattern?_eq_some_iff, Grammar.reinterpreted]
  cases found : e.asPattern? with
  | none =>
    rw [found] at gives
    simp only [reduceCtorEq, exists_false, not_false_eq_true, iff_false, forall_const, false_imp_iff,
      true_and]
    exact ⟨by rw [show (pattern e.toValue).2 = _ from gives]; rintro ⟨⟩, gives, fun _ => rfl⟩
  | some t =>
    rw [found] at gives
    rw [show pattern e.toValue = _ from gives]
    refine ⟨⟨fun _ => ⟨t, rfl⟩, fun _ => rfl⟩, ?_, fun none => absurd ⟨t, rfl⟩ none⟩
    rintro _ ⟨⟩
    exact ⟨rfl, fun _ => rfl⟩

/-- The array `[{a: b}]` becomes a pattern, and so does the object in it. -/
theorem pattern_retypes_array :
    pattern (Node.arrayExpression [some (.objectExpression
      [.property .init (.identifier [0x61]) false (.identifier [0x62]) false false])]).toValue =
      ((Node.arrayPattern [some (.objectPattern
        [.property .init (.identifier [0x61]) false (.identifier [0x62]) false false])]).toValue, none) := by
  refine ((pattern_retypes _ ?_).2.1 _ (.array (.cons (.object (.cons (.plain rfl) .nil)) .nil))).1
  intro _ items occurs
  cases occurs with
  | deeper part inside =>
    obtain ⟨-, rfl⟩ : _ ∧ _ = Node.objectExpression _ := by simpa [Node.parts] using part
    cases inside with
    | here => simp
    | deeper part inside =>
      obtain ⟨-, rfl⟩ : _ ∧ _ = Node.property .. := by simpa [Node.parts] using part
      cases inside with
      | deeper part inside =>
        -- The key and the value are names, which have no parts.
        simp only [Node.parts, Node.mem_bare, List.mem_cons, List.not_mem_nil, or_false] at part
        obtain ⟨-, rfl | rfl⟩ := part
        all_goals
          cases inside with
          | deeper part => cases part
end Reinterpretation

end EcmaScript
