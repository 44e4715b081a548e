import EcmaScript.Node.Attributes
import EcmaScript.Proofs.Occurrence

/-!
Syntax trees as they leave the library: attribute trees. What has a type in the attribute tree of a program
is a node that occurs in the program, so that whatever is said of all nodes that occur is said of all that a
tool can find.
-/

namespace EcmaScript

open List

/-- `value.Holds attributes`: a node or a record with these attributes is the value or lies in it. -/
inductive Value.Holds : Value → Attributes → Prop where
  | here {value : Value} {attributes : Attributes} (own : value.attributes? = some attributes) :
    Holds value attributes
  | under {value part : Value} {attributes found : Attributes} {name : String}
    (own : value.attributes? = some attributes) (member : (name, part) ∈ attributes)
    (inside : Holds part found) : Holds value found
  | item {items : List Value} {part : Value} {found : Attributes} (member : part ∈ items)
    (inside : Holds part found) : Holds (.list items) found

/-- Nothing with a type lies in the value. -/
def Value.Plain (value : Value) : Prop :=
  ∀ attributes, value.Holds attributes → attributes.get? "type" = none

namespace Value.Plain

theorem of_single {value : Value} (bare : value.attributes? = none)
    (single : ∀ items, value ≠ .list items) : value.Plain := by
  intro found holds
  cases holds with
  | here own | under own => simp [bare] at own
  | item => exact absurd rfl (single _)

theorem null : Value.null.Plain :=
  of_single rfl nofun

theorem bool (b : Bool) : (Value.bool b).Plain :=
  of_single rfl nofun

theorem text (t : Text) : (Value.text t).Plain :=
  of_single rfl nofun

theorem list {items : List Value} (each : ∀ item ∈ items, item.Plain) : (Value.list items).Plain := by
  intro found holds
  cases holds with
  | here own | under own => cases own
  | item member inside => exact each _ member _ inside

theorem record {attributes : Attributes} (untyped : attributes.get? "type" = none)
    (each : ∀ part ∈ attributes, part.2.Plain) : (Value.record attributes).Plain := by
  intro found holds
  cases holds with
  | here own =>
    cases own
    exact untyped
  | under own member inside =>
    cases own
    exact each _ member _ inside

theorem toValue (value : Literal) : value.toValue.Plain := by
  cases value with
  | number n => cases n <;> exact of_single rfl nofun
  | regExp => exact list (by simp [text])
  | _ => exact of_single rfl nofun

theorem extra (value : Literal) : ∀ part ∈ value.extra, part.2.Plain := by
  cases value with
  | regExp pattern flags =>
    have fields : ∀ part ∈ [("pattern", Value.text pattern), ("flags", .text flags)], part.2.Plain := by
      simp [text]
    simpa [Literal.extra] using record rfl fields
  | _ => simp [Literal.extra]

end Value.Plain

namespace Node

/-- What an attribute of a node may be: a part of it, a list of such values, or a plain value. -/
inductive Displays (n : Node) : Value → Prop where
  | plain {value : Value} (plain : value.Plain) : Displays n value
  | part {value : Value} {child : Node} (among : child ∈ n.parts.map Prod.snd)
    (shown : child.toValue = value) : Displays n value
  | items {items : List Value} (each : ∀ item ∈ items, Displays n item) : Displays n (.list items)

namespace Displays

variable {n : Node}

theorem bool (b : Bool) : n.Displays (.bool b) :=
  .plain (.bool b)

theorem text (t : Text) : n.Displays (.text t) :=
  .plain (.text t)

theorem toValue {child : Node} (among : child ∈ n.parts.map Prod.snd) : n.Displays child.toValue :=
  .part among rfl

theorem optionValue {child : Option Node} (among : ∀ m, child = some m → m ∈ n.parts.map Prod.snd) :
    n.Displays (Node.optionValue child) := by
  cases child with
  | none => exact .plain .null
  | some child => exact .toValue (among child rfl)

theorem listValues {children : List Node} (among : ∀ m ∈ children, m ∈ n.parts.map Prod.snd) :
    n.Displays (.list (Node.listValues children)) := by
  apply Displays.items
  induction children with
  | nil => nofun
  | cons first rest ih =>
    obtain ⟨isPart, others⟩ := forall_mem_cons.mp among
    exact forall_mem_cons.mpr ⟨.toValue isPart, ih others⟩

theorem holesValues {children : List (Option Node)}
    (among : ∀ m, some m ∈ children → m ∈ n.parts.map Prod.snd) :
    n.Displays (.list (Node.holesValues children)) := by
  apply Displays.items
  induction children with
  | nil => nofun
  | cons first rest ih =>
    refine forall_mem_cons.mpr ⟨optionValue fun m same => ?_, ih fun m member => ?_⟩
    · exact among m (same ▸ mem_cons_self)
    · exact among m (mem_cons_of_mem _ member)

theorem handlerValues {child : Option Node} (among : ∀ m, child = some m → m ∈ n.parts.map Prod.snd) :
    n.Displays (.list (Node.handlerValues child)) := by
  cases child with
  | none => exact .items nofun
  | some child => exact .items (forall_mem_singleton.mpr (.toValue (among child rfl)))

end Displays

theorem displays_attributes (n : Node) : ∀ part ∈ n.attributes, n.Displays part.2 := by
  cases n
  -- A literal has as many attributes as its kind asks for, all of them plain. The other nodes have a fixed
  -- list of attributes, each a plain value or made of parts.
  case literal value raw =>
    simp only [attributes, toValue, element, forall_mem_cons, forall_mem_append, not_mem_nil,
      false_imp_iff, implies_true, and_true]
    exact ⟨.text _, ⟨.plain (.toValue _), .text _⟩, fun part member => .plain (.extra _ _ member)⟩
  all_goals
    simp (disch := simp +contextual [parts]) only [attributes, toValue, element, Value.ofString,
      forall_mem_cons, not_mem_nil, false_imp_iff, implies_true, and_self, Displays.bool,
      Displays.text, Displays.toValue, Displays.optionValue, Displays.listValues, Displays.holesValues,
      Displays.handlerValues, Displays.items]

theorem toValue_eq (n : Node) : n.toValue = .node n.attributes := by
  cases n <;> rfl

theorem attributes?_toValue (n : Node) : n.toValue.attributes? = some n.attributes := by
  rw [n.toValue_eq]
  rfl

/-- A node with these attributes occurs in the tree. -/
def Bears (root : Node) (attributes : Attributes) : Prop :=
  ∃ frames node, root.Occurs frames node ∧ node.attributes = attributes

theorem Bears.above {n child : Node} {attributes : Attributes} (bears : child.Bears attributes)
    (among : child ∈ n.parts.map Prod.snd) : n.Bears attributes := by
  obtain ⟨frames, node, occurs, same⟩ := bears
  obtain ⟨⟨frame, _⟩, part, rfl⟩ := mem_map.mp among
  exact ⟨_, node, .deeper part occurs, same⟩

variable {value : Value} {attributes found : Attributes}

/-- What a node displays under names of its own is a part of the node, if anything in it has a type. -/
theorem Displays.bears {n : Node} (displayed : n.Displays value) (own : value.attributes? = some attributes)
    (holds : value.Holds found) (typed : found.get? "type" ≠ none)
    (self : ∀ child : Node, child.toValue = value → child.Bears found) : n.Bears found := by
  cases displayed with
  | plain plain => exact absurd (plain _ holds) typed
  | part among shown => exact (self _ shown).above among
  | items => cases own

/-- What has a type and lies in the value of a node, or in something the node displays, is a node that
occurs there. The two are proved together, since a list is displayed but is no node's value. -/
theorem bears_of_holds (holds : value.Holds found) (typed : found.get? "type" ≠ none) :
    (∀ n : Node, n.toValue = value → n.Bears found) ∧ ∀ n : Node, n.Displays value → n.Bears found := by
  induction holds with
  | @here value found own =>
    have self (n : Node) (shown : n.toValue = value) : n.Bears found := by
      rw [← shown, n.attributes?_toValue] at own
      exact ⟨[], n, .here n, Option.some.inj own⟩
    exact ⟨self, fun n displayed => displayed.bears own (.here own) typed self⟩
  | @under value part attributes found name own member inside ih =>
    -- Below a node the search goes on in one of its attributes, which the node displays.
    have self (n : Node) (shown : n.toValue = value) : n.Bears found := by
      rw [← shown, n.attributes?_toValue] at own
      obtain rfl := Option.some.inj own
      exact (ih typed).2 n (n.displays_attributes _ member)
    exact ⟨self, fun n displayed => displayed.bears own (.under own member inside) typed self⟩
  | @item items part found member inside ih =>
    have unlisted (n : Node) (shown : n.toValue = .list items) : False := by
      rw [n.toValue_eq] at shown
      cases shown
    refine ⟨fun n shown => (unlisted n shown).elim, fun n displayed => ?_⟩
    cases displayed with
    | plain plain => exact absurd (plain _ (.item member inside)) typed
    | part among shown => exact (unlisted _ shown).elim
    | items each => exact (ih typed).2 n (each _ member)

end Node

end EcmaScript
