import EcmaScript.Proofs.Formation

/-!
The names that a tree uses. An identifier is used wherever it stands as an expression, a label or
something that is bound. The name of a member after a dot and the key of a property are no uses: there
an identifier only says which member or property is meant.
-/

namespace EcmaScript.Node

/-- The direct parts of a node, without a name that only says which member or property is meant. -/
def usedParts : Node → List Node
  | memberExpression false object _ => [object]
  | property _ _ false value _ _ => [value]
  | node => node.parts.map Prod.snd

/-- Somewhere in the tree an identifier of that name is used. -/
inductive Uses : Node → Text → Prop where
  | here (name : Text) : Uses (identifier name) name
  | deeper {node part : Node} {name : Text} (member : part ∈ node.usedParts)
      (inside : Uses part name) : Uses node name

def Among (names : Text → Prop) (node : Node) : Prop :=
  ∀ name, node.Uses name → names name

variable {names : Text → Prop} {node : Node} {name : Text}

theorem Among.of_parts (unnamed : node.name? = none)
    (parts : ∀ part ∈ node.usedParts, part.Among names) : node.Among names := by
  intro name uses
  cases uses with
  | here => cases unnamed
  | deeper member inside => exact parts _ member name inside

@[simp] theorem among_identifier : (identifier name).Among names ↔ names name := by
  constructor
  · intro among
    exact among name (.here name)
  · intro named other uses
    cases uses with
    | here => exact named
    | deeper member _ => simp [usedParts, parts] at member

theorem among_literal (value : Literal) (raw : Text) : (literal value raw).Among names :=
  .of_parts rfl (by simp [usedParts, parts])

/-- The key of a property counts only if it is computed. -/
theorem among_property {kind : PropertyKind} {key value : Node} {computed method shorthand : Bool}
    (keyed : computed = true → key.Among names) (valued : value.Among names) :
    (property kind key computed value method shorthand).Among names := by
  refine .of_parts rfl ?_
  cases computed with
  | false => simpa [usedParts] using valued
  | true => simpa [usedParts, parts] using ⟨keyed rfl, valued⟩

theorem among_iff (unnamed : node.name? = none) :
    node.Among names ↔ ∀ part ∈ node.usedParts, part.Among names :=
  ⟨fun among _ member name uses => among name (.deeper member uses), .of_parts unnamed⟩

theorem partwise_among : Partwise (Among names) where
  collection {node _} found := by
    cases node <;> cases found
    all_goals
      rw [among_iff rfl]
      simp only [usedParts, parts, map_snd_bare]
  property {_ _ computed _ _ _ _} same := by
    rw [among_iff rfl, among_iff rfl]
    cases computed <;> simp [usedParts, parts, same]

end EcmaScript.Node
