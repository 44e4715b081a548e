import EcmaScript.Node

/-!
Expressions as targets. An expression can be assigned to if names, members and defaults stand in all the
places that a pattern gives to them; as a target it differs from the expression only in the types of its
arrays, its objects and what is spread in them. Both are said by one relation, and the function that rereads
expressions computes it.
-/

namespace EcmaScript.Node

/-- Targets that are read as they stand. -/
def isPlainTarget : Node → Bool
  | identifier _ | memberExpression .. | restElement _ | assignmentPattern .. => true
  | _ => false

mutual

/-- The expression can be assigned to, and it becomes this target. -/
inductive Retypes : Node → Node → Prop
  | plain {e : Node} (isPlain : e.isPlainTarget = true) : Retypes e e
  | spread {e t : Node} (argument : Retypes e t) : Retypes (spreadElement e) (restElement t)
  | array {es ts : List (Option Node)} (elements : RetypesElements es ts) :
    Retypes (arrayExpression es) (arrayPattern ts)
  | object {es ts : List Node} (values : RetypesValues es ts) :
    Retypes (objectExpression es) (objectPattern ts)

inductive RetypesElements : List (Option Node) → List (Option Node) → Prop
  | nil : RetypesElements [] []
  | hole {es ts : List (Option Node)} (rest : RetypesElements es ts) :
    RetypesElements (none :: es) (none :: ts)
  | cons {e t : Node} {es ts : List (Option Node)} (first : Retypes e t) (rest : RetypesElements es ts) :
    RetypesElements (some e :: es) (some t :: ts)

inductive RetypesValues : List Node → List Node → Prop
  | nil : RetypesValues [] []
  | cons {kind : PropertyKind} {key e t : Node} {computed method shorthand : Bool} {es ts : List Node}
    (first : Retypes e t) (rest : RetypesValues es ts) :
    RetypesValues (property kind key computed e method shorthand :: es)
      (property kind key computed t method shorthand :: ts)

end

mutual

theorem retypes_of_asPattern? {e t : Node} (found : e.asPattern? = some t) : Retypes e t := by
  cases e
  case identifier | memberExpression | restElement | assignmentPattern =>
    cases found
    exact .plain rfl
  case spreadElement =>
    obtain ⟨_, reread, rfl⟩ := Option.map_eq_some_iff.mp found
    exact .spread (retypes_of_asPattern? reread)
  case arrayExpression =>
    obtain ⟨_, reread, rfl⟩ := Option.map_eq_some_iff.mp found
    exact .array (retypes_of_elements reread)
  case objectExpression =>
    obtain ⟨_, reread, rfl⟩ := Option.map_eq_some_iff.mp found
    exact .object (retypes_of_properties reread)
  all_goals
    simp only [asPattern?, reduceCtorEq] at found

theorem retypes_of_elements {es ts : List (Option Node)} (found : elementsAsPatterns? es = some ts) :
    RetypesElements es ts := by
  match es with
  | [] =>
    cases found
    exact .nil
  | none :: rest =>
    obtain ⟨_, reread, rfl⟩ := Option.map_eq_some_iff.mp found
    exact .hole (retypes_of_elements reread)
  | some element :: rest =>
    simp only [elementsAsPatterns?] at found
    split at found
    case h_2 => cases found
    next read =>
      obtain ⟨_, reread, rfl⟩ := Option.map_eq_some_iff.mp found
      exact .cons (retypes_of_asPattern? read) (retypes_of_elements reread)

theorem retypes_of_properties {es ts : List Node} (found : propertiesAsPatterns? es = some ts) :
    RetypesValues es ts := by
  match es with
  | [] =>
    cases found
    exact .nil
  | first :: rest =>
    cases first
    case property =>
      simp only [propertiesAsPatterns?] at found
      split at found
      case h_2 => cases found
      next read =>
        obtain ⟨_, reread, rfl⟩ := Option.map_eq_some_iff.mp found
        exact .cons (retypes_of_asPattern? read) (retypes_of_properties reread)
    all_goals
      simp only [propertiesAsPatterns?, reduceCtorEq] at found

end

mutual

theorem Retypes.asPattern? {e t : Node} (retypes : Retypes e t) : e.asPattern? = some t := by
  cases retypes with
  | plain isPlain => cases e <;> first | rfl | cases isPlain
  | spread argument => rw [Node.asPattern?, argument.asPattern?, Option.map_some]
  | array elements => rw [Node.asPattern?, elements.asPatterns?, Option.map_some]
  | object values => rw [Node.asPattern?, values.asPatterns?, Option.map_some]

theorem RetypesElements.asPatterns? {es ts : List (Option Node)} (retypes : RetypesElements es ts) :
    elementsAsPatterns? es = some ts := by
  cases retypes with
  | nil => rw [elementsAsPatterns?]
  | hole rest => rw [elementsAsPatterns?, rest.asPatterns?, Option.map_some]
  | cons first rest => simp only [elementsAsPatterns?, first.asPattern?, rest.asPatterns?, Option.map_some]

theorem RetypesValues.asPatterns? {es ts : List Node} (retypes : RetypesValues es ts) :
    propertiesAsPatterns? es = some ts := by
  cases retypes with
  | nil => rw [propertiesAsPatterns?]
  | cons first rest => simp only [propertiesAsPatterns?, first.asPattern?, rest.asPatterns?, Option.map_some]

end

theorem asPattern?_eq_some_iff {e t : Node} : e.asPattern? = some t ↔ Retypes e t :=
  ⟨retypes_of_asPattern?, Retypes.asPattern?⟩

end EcmaScript.Node
