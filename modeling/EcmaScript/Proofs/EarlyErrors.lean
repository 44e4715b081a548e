import Mathlib.Data.List.Nodup
import EcmaScript.Proofs.FormedStatements

/-!
Early errors: what the tree of a program never holds, since a program that would need it is refused. Three
kinds are treated. Strict code may not use names and statements that other code may use; only some
expressions may be assigned; and an object with a default among its properties makes sense as an assignment
target only. The registers that decide on the last two are not asked in every place, so their laws have the
exceptions that are stated with them.
-/

namespace EcmaScript

variable {settings : Settings} {code : Text} {root : Node}

/-! ### Strict code -/

namespace Node

/-- What strict code demands of a node: it is no `with` statement, deletes no plain name, neither assigns
nor binds `eval` and `arguments`, and has no two parameters of the same name. -/
def StrictlyAllowed : Node → Prop
  | withStatement .. => False
  | unaryExpression operator argument => operator = .delete → argument.name? = none
  | assignmentExpression _ left _ => left.isRestrictedName = false
  | updateExpression _ _ argument => argument.isRestrictedName = false
  | variableDeclarator id _ => id.isRestrictedName = false
  | catchClause param _ => param.isRestrictedName = false
  | functionDeclaration id params _ _ | functionExpression id params _ _ =>
    (∀ name ∈ id, name.isRestrictedName = false) ∧
      (∀ param ∈ params, param.isRestrictedName = false) ∧ (params.map name?).Nodup
  | _ => True

end Node

variable {r : Regime} {c : Prop} {k : Category} {n m : Node}

/-- Names of a function that are lawful as texts are lawful as nodes. -/
theorem LawfulNames.nodes {name : Option Text} {params : List Text} (lawful : LawfulNames name params) :
    (∀ n ∈ name.map Node.identifier, n.isRestrictedName = false) ∧
      (∀ n ∈ params.map Node.identifier, n.isRestrictedName = false) ∧
        ((params.map Node.identifier).map Node.name?).Nodup := by
  obtain ⟨named, allowed, distinct⟩ := lawful
  refine ⟨?_, ?_, ?_⟩
  · intro n found
    obtain ⟨text, isName, rfl⟩ := Option.map_eq_some_iff.mp found
    exact named text isName
  · intro n member
    obtain ⟨text, isParam, rfl⟩ := List.mem_map.mp member
    exact allowed text isParam
  · rw [List.map_map]
    exact distinct.map fun _ _ same => Option.some.inj same

theorem Formed.strictlyAllowed (formed : Formed r c k n) (strict : r.strict) : n.StrictlyAllowed := by
  cases formed with
  | withStatement sloppy => exact sloppy strict
  | unaryExpression lawful | updateExpression _ _ lawful | assignmentExpression lawful
  | operationExpression _ lawful | variableDeclarator lawful | catchClause lawful => exact lawful strict
  | functionDeclaration lawful | functionExpression lawful => exact (lawful strict).nodes
  | _ => trivial

/-- Strict code is held to its rules everywhere: in a program that starts with the directive, every node at
any depth is allowed in strict code, in nested functions, getters and setters as well. -/
theorem parse_strictly_allowed (parsed : parse settings (Text.ofString "\"use strict\";\n" ++ code) = .ok root)
    {frames : List Frame} {node : Node} (occurs : root.Occurs frames node) : node.StrictlyAllowed := by
  have formed := parse_strictly_formed parsed
  obtain ⟨c, k, formed⟩ := formed.occurs occurs
  exact formed.strictlyAllowed trivial

theorem setter_parsed : (match parse {} (Text.ofString "\"use strict\";\n" ++ Text.ofString "({set a(b) {}})") with
    | .ok (.program [_, .expressionStatement (.objectExpression
        [.property _ _ _ (.functionExpression none [_] _ _) _ _])]) => true
    | _ => false) = true := by decide +kernel

/-- The parameter of a setter is judged like any other. -/
theorem parse_strictly_allowed_setter : ∃ root frames param defaults body,
      parse {} (Text.ofString "\"use strict\";\n" ++ Text.ofString "({set a(b) {}})") = .ok root ∧
        root.Occurs frames (.functionExpression none [param] defaults body) ∧
        param.isRestrictedName = false := by
  have shape := setter_parsed
  split at shape
  case h_2 => cases shape
  next first kind key computed param defaults body method shorthand parsed =>
    refine ⟨_, _, param, defaults, body, parsed, .of_descend [1, 0, 0, 1] rfl, ?_⟩
    exact (parse_strictly_allowed parsed (.of_descend [1, 0, 0, 1] rfl)).2.1 param (List.mem_singleton_self _)

theorem Formed.lawfulSpelling {value : Literal} {raw : Text} (formed : Formed r c k (.literal value raw))
    (strict : r.strict) : LawfulSpelling value raw := by
  cases formed with
  | literal shown lawful => exact lawful strict

/-- Strict code has no octal escapes: in a program that starts with the directive no string is spelled with
one, whether it is an expression or the key of a property. Numerals are not judged; those with a leading zero
are let pass. -/
theorem parse_strictly_unescaped
    (parsed : parse settings (Text.ofString "\"use strict\";\n" ++ code) = .ok root)
    {frames : List Frame} {value raw : Text} (occurs : root.Occurs frames (.literal (.string value) raw)) :
    raw.hasOctalEscape = false := by
  have formed := parse_strictly_formed parsed
  obtain ⟨c, k, formed⟩ := formed.occurs occurs
  exact formed.lawfulSpelling trivial

theorem escaped_parsed : (match parse {} (Text.ofString "\"use strict\";\n" ++ Text.ofString "(\x7b'a\\0': 010\x7d)") with
    | .ok (.program [_, .expressionStatement (.objectExpression
        [.property _ (.literal (.string _) raw) _ (.literal (.number _) raw') _ _])]) =>
      decide (raw = Text.ofString "'a\\0'" ∧ raw' = Text.ofString "010")
    | _ => false) = true := by decide +kernel

/-- The key of a property, spelled with an escape that is let pass, and an octal numeral as its value. -/
theorem parse_strictly_unescaped_key : ∃ root frames value raw number,
      parse {} (Text.ofString "\"use strict\";\n" ++ Text.ofString "(\x7b'a\\0': 010\x7d)") = .ok root ∧
        root.Occurs frames (.literal (.string value) raw) ∧ raw = Text.ofString "'a\\0'" ∧
        root.Occurs frames (.literal (.number number) (Text.ofString "010")) ∧
        raw.hasOctalEscape = false := by
  have shape := escaped_parsed
  split at shape
  case h_2 => cases shape
  next first kind value raw computed number raw' method shorthand parsed =>
    obtain ⟨rfl, rfl⟩ := of_decide_eq_true shape
    refine ⟨_, _, value, _, number, parsed, .of_descend [1, 0, 0, 0] rfl, rfl, .of_descend [1, 0, 0, 1] rfl, ?_⟩
    exact parse_strictly_unescaped parsed (.of_descend [1, 0, 0, 0] rfl)

/-! ### Assignments -/

/-- What the left side of a plain assignment may be. -/
def Node.isTarget : Node → Bool
  | .identifier _ | .memberExpression .. | .arrayPattern _ | .objectPattern _ => true
  | _ => false

theorem Formed.isTarget (formed : Formed r c .target n) : n.isTarget = true := by
  cases formed <;> rfl

/-- What is assigned or updated. A plain assignment has a target on its left. In the other assignments and
in updates the registers of the cover grammar decide, and they let more pass than names and members. -/
theorem parse_assigned (parsed : parse settings code = .ok root) :
    (∀ frames left right, root.Occurs frames (.assignmentExpression .assign left right) →
      left.isTarget = true) ∧
    (∀ frames operator left right, root.Occurs frames (.assignmentExpression operator left right) →
      operator ≠ .assign → left.passesForTarget = true) ∧ (∀ frames operator prefixed argument,
      root.Occurs frames (.updateExpression operator prefixed argument) →
        argument.passesForTarget = true) := by
  have formed := parse_formed parsed
  -- Two rules make assignments, and the operator tells which of them it was.
  refine ⟨fun frames left right occurs => ?_, fun frames operator left right occurs compound => ?_,
    fun frames operator prefixed argument occurs => ?_⟩
  · obtain ⟨c, k, formed⟩ := formed.occurs occurs
    cases formed with
    | assignmentExpression _ left => exact left.isTarget
    | operationExpression compound => exact absurd rfl compound
  · obtain ⟨c, k, formed⟩ := formed.occurs occurs
    cases formed with
    | assignmentExpression => exact absurd rfl compound
    | operationExpression _ _ passes => exact passes
  · obtain ⟨c, k, formed⟩ := formed.occurs occurs
    cases formed with
    | updateExpression _ _ _ passes => exact passes

theorem update_parsed : (match parse {} (Text.ofString "true++") with
    | .ok (.program [.expressionStatement (.updateExpression _ _ (.literal (.boolean _) _))]) => true
    | _ => false) = true := by decide +kernel

/-- The update of a literal, which is let pass. -/
theorem parse_assigned_boolean :
    ∃ root frames operator prefixed value raw, parse {} (Text.ofString "true++") = .ok root ∧
      root.Occurs frames (.updateExpression operator prefixed (.literal (.boolean value) raw)) ∧
      (Node.literal (.boolean value) raw).passesForTarget = true := by
  have shape := update_parsed
  split at shape
  case h_2 => cases shape
  next operator prefixed value raw parsed =>
    refine ⟨_, _, operator, prefixed, value, raw, parsed, .of_descend [0, 0] rfl, ?_⟩
    exact (parse_assigned parsed).2.2 _ _ _ _ (.of_descend [0, 0] rfl)

/-! ### Defaults in objects -/

/-- `root.Shows node`: whether a default may stay in the node is settled. This is so for the root and for
every part that is read alone, however deep it lies in a target or a `for` head; a part that is read with
the registers of the whole shows if the whole does. -/
inductive Node.Shows (root : Node) : Node → Prop where
  | root : Shows root root
  | isolated {frames : List Frame} {frame : Option Frame} {whole part : Node}
    (occurs : root.Occurs frames whole) (link : (.isolated, frame, part) ∈ whole.links) : Shows root part
  | inherited {frame : Option Frame} {whole part : Node} (shows_ : Shows root whole)
    (link : (.inherited, frame, part) ∈ whole.links) : Shows root part

theorem Formed.shows (formed : Formed r True k n) (shows_ : n.Shows m) : ∃ k, Formed r True k m := by
  induction shows_ with
  | root => exact ⟨k, formed⟩
  | isolated occurs link =>
    obtain ⟨c, k, formed⟩ := formed.occurs occurs
    obtain ⟨k, formed, -⟩ := formed.links _ link
    exact ⟨k, formed⟩
  | inherited shows_ link ih =>
    obtain ⟨k, formed⟩ := ih
    obtain ⟨k, formed, -⟩ := formed.links _ link
    exact ⟨k, formed⟩

/-- A property of an object in which no default shows. -/
theorem Formed.value_ne_assignmentPattern {kind : PropertyKind} {key value left right : Node}
    {computed method shorthand : Bool}
    (formed : Formed r True .property (.property kind key computed value method shorthand)) :
    value ≠ .assignmentPattern left right := by
  rintro rfl
  cases formed with
  | dataProperty key value =>
    -- A name with a default is no expression.
    cases value
  | coverProperty shown => exact shown trivial

/-- An object with a default among its properties is refused wherever it shows, that is, unless it is the
left side of an assignment or the start of a `for` head, or is read with the registers of one. -/
theorem parse_shows_no_default (parsed : parse settings code = .ok root) {properties : List Node}
    (shows_ : root.Shows (.objectExpression properties)) :
    ∀ kind key computed left right method shorthand,
      .property kind key computed (.assignmentPattern left right) method shorthand ∉ properties := by
  intro kind key computed left right method shorthand member
  have formed := parse_formed parsed
  obtain ⟨k, formed⟩ := formed.shows shows_
  cases formed with
  | objectExpression parts => exact (parts _ member).value_ne_assignmentPattern rfl

theorem default_parsed : (match parse {} (Text.ofString "({a = 1} = {b: c})") with
    | .ok (.program [.expressionStatement (.assignmentExpression _ (.objectPattern
        [.property _ _ _ (.assignmentPattern _ _) _ _]) (.objectExpression _))]) => true
    | _ => false) = true := by decide +kernel

/-- An object with a default that became a pattern, beside one that shows. -/
theorem parse_shows_no_default_assigned :
    ∃ root properties, parse {} (Text.ofString "({a = 1} = {b: c})") = .ok root ∧
      root.Shows (.objectExpression properties) ∧ ∀ kind key computed left right method shorthand,
        .property kind key computed (.assignmentPattern left right) method shorthand ∉ properties := by
  have shape := default_parsed
  split at shape
  case h_2 => cases shape
  next operator _ _ _ _ _ _ _ properties parsed =>
    refine ⟨_, properties, parsed, ?shows, parse_shows_no_default parsed ?shows⟩
    exact .isolated (.of_descend [0, 0] rfl) (List.mem_of_getElem? (i := 1) rfl)

/-- On the left side of an assignment with an operation the default stays. -/
example : (match parse {} (Text.ofString "({a = 1}) += 2") with
    | .ok (.program [.expressionStatement (.assignmentExpression .add (.objectExpression
        [.property _ _ _ (.assignmentPattern _ _) _ _]) _)]) => true
    | _ => false) = true := by decide +kernel

end EcmaScript
