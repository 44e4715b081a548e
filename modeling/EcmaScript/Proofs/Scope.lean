import EcmaScript.Parser
import EcmaScript.Proofs.Occurrence

/-!
What jumps may refer to. A scope collects the frames around a place as far as jumps see them: a
function body hides all that lies outside it. A tree obeys a scope if each of its jumps and labels is
lawful in the scope of its own place, and it is closed if it does so in every scope, as expressions
do, whose only statements are those in function bodies. Both notions are about occurrences, and come
apart into a condition on the root and one on each part.
-/

namespace EcmaScript

/-- What a jump can refer to at a place of a program. -/
structure Scope where
  inFunction : Bool := false
  inLoop : Bool := false
  inSwitch : Bool := false
  labels : List Text := []
  deriving DecidableEq, Repr

namespace Scope

def enter : Frame → Scope → Scope
  | .functionBody, _ => { inFunction := true }
  | .loopBody, s => { s with inLoop := true }
  | .switchClauses, s => { s with inSwitch := true }
  | .label name, s => { s with labels := s.labels ++ [name] }

/-- The scope of a place inside frames, of which the innermost comes first. -/
def within (s : Scope) (frames : List Frame) : Scope :=
  frames.foldr enter s

theorem within_append (s : Scope) (inner outer : List Frame) :
    s.within (inner ++ outer) = (s.within outer).within inner :=
  List.foldr_append

@[simp] theorem within_cons (s : Scope) (frame : Frame) (frames : List Frame) :
    s.within (frame :: frames) = enter frame (s.within frames) :=
  rfl

section

variable {frames : List Frame}

theorem functionBody_mem_of_within (inside : (within {} frames).inFunction = true) :
    .functionBody ∈ frames := by
  induction frames with
  | nil => cases inside
  | cons frame frames ih =>
    cases frame with
    | functionBody => exact List.mem_cons_self
    | loopBody | switchClauses | label name => exact List.mem_cons_of_mem _ (ih inside)

theorem loopBody_mem_of_within (inside : (within {} frames).inLoop = true) :
    .loopBody ∈ Frame.sameFunction frames := by
  induction frames with
  | nil => cases inside
  | cons frame frames ih =>
    cases frame with
    | functionBody => cases inside
    | loopBody => simp
    | switchClauses | label name => simpa using ih inside

theorem switchClauses_mem_of_within (inside : (within {} frames).inSwitch = true) :
    .switchClauses ∈ Frame.sameFunction frames := by
  induction frames with
  | nil => cases inside
  | cons frame frames ih =>
    cases frame with
    | functionBody => cases inside
    | switchClauses => simp
    | loopBody | label name => simpa using ih inside

theorem mem_labels_within {name : Text} :
    name ∈ (within {} frames).labels ↔ .label name ∈ Frame.sameFunction frames := by
  induction frames with
  | nil => simp [within, Frame.sameFunction]
  | cons frame frames ih =>
    cases frame with
    | functionBody => simp [enter]
    | loopBody | switchClauses => simpa [enter] using ih
    | label other => simp [enter, ih, or_comm]

end

end Scope

/-- The scope that the context of a parser stands for. -/
def Context.scope (c : Context) : Scope :=
  { inFunction := c.inFunctionBody, inLoop := c.inIteration, inSwitch := c.inSwitch
    labels := c.labels }

namespace Node

/-- A jump or label that refers to nothing outside the scope of its place. -/
def Lawful (s : Scope) : Node → Prop
  | returnStatement _ => s.inFunction = true
  | breakStatement none => s.inLoop = true ∨ s.inSwitch = true
  | continueStatement none => s.inLoop = true
  | breakStatement (some label) | continueStatement (some label) =>
    ∃ name ∈ s.labels, label = identifier name
  | labeledStatement label _ => ∃ name, name ∉ s.labels ∧ label = identifier name
  | _ => True

/-- Every jump and label of the tree is lawful where it stands, if the tree stands in the scope. -/
def Obeys (s : Scope) (root : Node) : Prop :=
  ∀ frames node, root.Occurs frames node → node.Lawful (s.within frames)

/-- The tree obeys every scope: none of its jumps leads out of it. -/
def Closed (root : Node) : Prop :=
  ∀ s, root.Obeys s

theorem obeys_iff {s : Scope} {root : Node} : root.Obeys s ↔
    root.Lawful s ∧ ∀ part ∈ root.parts, part.2.Obeys (s.within part.1.toList) := by
  constructor
  · intro obeys
    refine ⟨obeys [] root (.here root), ?_⟩
    rintro ⟨frame, child⟩ member frames node occurs
    rw [← Scope.within_append]
    exact obeys _ node (.deeper member occurs)
  · rintro ⟨lawful, parts⟩ frames node occurs
    cases occurs with
    | here => exact lawful
    | deeper member inside =>
      rw [Scope.within_append]
      exact parts _ member _ node inside

variable {s : Scope} {node : Node} {nodes : List Node}

theorem Obeys.part {part : Node} (obeys : node.Obeys s) (frame : Option Frame)
    (member : (frame, part) ∈ node.parts) : part.Obeys (s.within frame.toList) :=
  (obeys_iff.mp obeys).2 _ member

/-- A node obeys a scope if its bare parts do and those in a frame obey the scope inside it. -/
theorem Obeys.of_framed {framed : List Node} (frame : Frame) (lawful : node.Lawful s)
    (parts : node.parts = bare nodes ++ framed.map fun part => (some frame, part))
    (outer : ∀ part ∈ nodes, part.Obeys s) (inner : ∀ part ∈ framed, part.Obeys (s.enter frame)) :
    node.Obeys s := by
  refine obeys_iff.mpr ⟨lawful, ?_⟩
  rintro ⟨around, part⟩ member
  rw [parts, List.mem_append, mem_bare, List.mem_map] at member
  rcases member with ⟨rfl, member⟩ | ⟨part, member, rfl, rfl⟩
  · exact outer part member
  · exact inner part member

theorem Obeys.of_bare (lawful : node.Lawful s) (parts : node.parts = bare nodes)
    (obey : ∀ part ∈ nodes, part.Obeys s) : node.Obeys s := by
  refine obeys_iff.mpr ⟨lawful, ?_⟩
  rintro ⟨around, part⟩ member
  rw [parts, mem_bare] at member
  obtain ⟨rfl, member⟩ := member
  exact obey part member

theorem Closed.of_bare (lawful : ∀ s, node.Lawful s) (parts : node.parts = bare nodes)
    (closed : ∀ part ∈ nodes, part.Closed) : node.Closed :=
  fun s => .of_bare (lawful s) parts fun part member => closed part member s

theorem Closed.part (closed : node.Closed) (parts : node.parts = bare nodes) :
    ∀ part ∈ nodes, part.Closed := by
  intro part member s
  have obeys := (obeys_iff.mp (closed s)).2 (none, part)
  rw [parts] at obeys
  exact obeys (mem_bare.mpr ⟨rfl, member⟩)

theorem closed_of_leaf (lawful : ∀ s, node.Lawful s) (leaf : node.parts = []) : node.Closed :=
  .of_bare lawful (leaf.trans (show [] = bare [] from rfl)) (List.forall_mem_nil _)

theorem closed_identifier (name : Text) : (identifier name).Closed :=
  closed_of_leaf (fun _ => trivial) rfl

theorem Closed.of_function {body : Node} (lawful : ∀ s, node.Lawful s)
    (parts : node.parts = bare nodes ++ [(some .functionBody, body)])
    (head : ∀ part ∈ nodes, part.Closed) (obeys : body.Obeys { inFunction := true }) : node.Closed :=
  fun s => .of_framed .functionBody (lawful s) (parts.trans (show _ = _ ++ [body].map _ from rfl))
    (fun part member => head part member s) (by simpa [Scope.enter] using obeys)

theorem partwise_closed : Partwise Closed where
  collection {node _} found := by
    cases node <;> cases found
    all_goals exact ⟨fun closed => closed.part rfl, .of_bare (fun _ => trivial) rfl⟩
  property {kind key computed value target method shorthand} same := by
    have apart (value : Node) : (property kind key computed value method shorthand).Closed ↔
        ∀ part ∈ [key, value], part.Closed :=
      ⟨fun closed => closed.part rfl, .of_bare (fun _ => trivial) rfl⟩
    simp only [apart, List.forall_mem_cons, same]

end Node

end EcmaScript
