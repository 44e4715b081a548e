import EcmaScript.Proofs.FormedStatements
import EcmaScript.Proofs.Jumps

/-!
The loops that labelled `continue` statements refer to. Such a statement lies in a statement with its label,
in the same function. If the label stands before a loop, maybe with other labels in between, then the
`continue` lies in the body of this loop, since the head of a loop holds no statement outside of functions.
Nothing looks at what a label stands before, so the label of a block will do as well.
-/

namespace EcmaScript

open List

namespace Node

/-- The statement behind all labels. -/
def unlabeled : Node → Node
  | labeledStatement _ body => body.unlabeled
  | node => node

def loopBody? : Node → Option Node
  | doWhileStatement body _ | whileStatement _ body | forStatement _ _ _ body
  | forInStatement _ _ body => some body
  | _ => none

/-- Every `continue` in the tree lies in the body of a function there. -/
def Contained (root : Node) : Prop :=
  ∀ frames label, root.Occurs frames (.continueStatement label) → .functionBody ∈ frames

variable {root node child : Node} {frame : Option Frame}

/-- An occurrence inside a frame passes through the node that puts the frame around one of its parts. -/
theorem Occurs.split {frame : Frame} {inner outer frames : List Frame}
    (occurs : root.Occurs frames node) (split : frames = inner ++ frame :: outer) :
    ∃ parent child, root.Occurs outer parent ∧ (some frame, child) ∈ parent.parts ∧
      child.Occurs inner node := by
  induction occurs generalizing outer with
  | here => simp at split
  | @deeper parent child node step frames part inside ih =>
    cases step with
    | none =>
      obtain ⟨parent', child', above, framed, below⟩ := ih (by simpa using split)
      exact ⟨parent', child', by simpa using Occurs.deeper part above, framed, below⟩
    | some step =>
      -- The frame of the first step is the outermost one, the last of the list.
      rcases eq_nil_or_concat outer with rfl | ⟨outer, last, rfl⟩
      · obtain ⟨rfl, same⟩ := append_inj' split rfl
        obtain rfl : step = frame := by simpa using same
        exact ⟨parent, child, .here parent, part, inside⟩
      · have regrouped : frames ++ [step] = (inner ++ frame :: outer) ++ [last] := by simpa using split
        obtain ⟨rfl, same⟩ := append_inj' regrouped rfl
        obtain rfl : step = last := by simpa using same
        obtain ⟨parent', child', above, framed, below⟩ := ih rfl
        exact ⟨parent', child', by simpa using Occurs.deeper part above, framed, below⟩

theorem Contained.of_parts (notContinue : ∀ label, node ≠ .continueStatement label)
    (parts : ∀ frame child, (frame, child) ∈ node.parts → frame = some .functionBody ∨ child.Contained) :
    node.Contained := by
  intro frames label occurs
  cases occurs with
  | here => exact absurd rfl (notContinue label)
  | deeper part inside =>
    rcases parts _ _ part with rfl | contained
    · simp
    · exact mem_append_left _ (contained _ label inside)

theorem eq_labeledStatement {name : Text} (part : (some (.label name), child) ∈ node.parts) :
    node = labeledStatement (identifier name) child := by
  cases node
  case labeledStatement label body =>
    have framed : some (.label name) = label.name?.map Frame.label ∧ child = body := by
      simpa [parts] using part
    obtain ⟨named, rfl⟩ := framed
    cases label <;> simp_all [name?]
  all_goals simp [parts] at part

end Node

/-! ### Places without statements -/

variable {r : Regime} {c : Prop} {k : Category} {n m : Node}

/-- The node may stand in such a place. -/
def Inert (r : Regime) (n : Node) : Prop :=
  ∃ c k, Formed r c k n ∧ k.isInert = true

/-- The parts of such a node are of this kind themselves, apart from the bodies of functions. -/
theorem Inert.part (inert : Inert r n) {frame : Option Frame} (part : (frame, m) ∈ n.parts) :
    frame = some .functionBody ∨ Inert r m := by
  obtain ⟨c, k, formed, inert⟩ := inert
  obtain ⟨c, k', formed, kept⟩ := formed.part part
  exact (kept inert).imp_right fun inert => ⟨c, k', formed, inert⟩

theorem Inert.contained (inert : Inert r n) : n.Contained := by
  intro frames label occurs
  generalize isContinue : Node.continueStatement label = node at occurs
  induction occurs with
  | here =>
    subst isContinue
    obtain ⟨c, k, formed, inert⟩ := inert
    cases formed
    cases inert
  | deeper part inside ih =>
    rcases inert.part part with rfl | inert
    · simp
    · exact mem_append_left _ (ih inert isContinue)

/-! ### Loops -/

/-- A loop holds a statement in its body only, apart from the bodies of functions. -/
theorem Formed.loop_part (formed : Formed r c .statement n) {body : Node} (loop : n.loopBody? = some body)
    {frame : Option Frame} (part : (frame, m) ∈ n.parts) :
    (frame = some .loopBody ∧ m = body) ∨ m.Contained := by
  have expression {c : Prop} {n : Node} (formed : Formed r c .expression n) : n.Contained :=
    Inert.contained ⟨c, _, formed, rfl⟩
  have declaration {c : Prop} {kind : DeclarationKind} {declarations : List Node}
      (declarators : ∀ n ∈ declarations, Formed r c .declarator n) :
      (Node.variableDeclaration kind declarations).Contained := by
    apply Node.Contained.of_parts (by simp)
    intro frame child part
    right
    exact Inert.contained ⟨c, _, declarators child (Node.mem_bare.mp part).2, rfl⟩
  cases formed <;> simp only [Node.loopBody?, reduceCtorEq, Option.some.injEq] at loop <;> subst loop
  all_goals
    simp only [Node.parts, mem_append, Node.mem_bare, mem_cons, not_mem_nil, Option.mem_toList,
      Option.toList_some, Prod.mk.injEq, or_false] at part
  case doWhileStatement _ test | whileStatement test _ =>
    rcases part with ⟨-, rfl⟩ | framed
    · exact .inr (expression test)
    · exact .inl framed
  case forStatement init test update _ =>
    rcases part with ⟨-, (started | tested) | updated⟩ | framed
    · exact .inr (expression (init m started))
    · exact .inr (expression (test m tested))
    · exact .inr (expression (update m updated))
    · exact .inl framed
  case forDeclaration declarators test update _ =>
    rcases part with ⟨-, (rfl | tested) | updated⟩ | framed
    · exact .inr (declaration declarators)
    · exact .inr (expression (test m tested))
    · exact .inr (expression (update m updated))
    · exact .inl framed
  case forInStatement left right _ =>
    rcases part with ⟨-, rfl | rfl⟩ | framed
    · exact .inr (Inert.contained ⟨_, _, left, rfl⟩)
    · exact .inr (expression right)
    · exact .inl framed
  case forInDeclaration left right _ =>
    rcases part with ⟨-, rfl | rfl⟩ | framed
    · exact .inr (declaration (forall_mem_singleton.mpr left))
    · exact .inr (expression right)
    · exact .inl framed

variable {frames : List Frame}

/-- A `continue` in a loop with labels in front of it, and in the same function, lies in the body of the
loop. -/
theorem Formed.continues_loop (formed : Formed r c .statement n) {body : Node}
    (loop : n.unlabeled.loopBody? = some body) {label : Option Node}
    (occurs : n.Occurs frames (.continueStatement label)) (sameFunction : .functionBody ∉ frames) :
    ∃ inner outer, frames = inner ++ .loopBody :: outer ∧ body.Occurs inner (.continueStatement label) := by
  induction n using Node.unlabeled.induct generalizing frames c with
  | case1 name statement ih =>
    cases formed with
    | labeledStatement name formed =>
      cases occurs with
      | @deeper _ child _ step frames part inside =>
        have either : (step = none ∧ child = .identifier name) ∨
            (step = some (.label name) ∧ child = statement) := by
          simpa [Node.parts, Node.name?] using part
        rcases either with ⟨-, rfl⟩ | ⟨rfl, rfl⟩
        · -- The label itself has no parts.
          cases inside with
          | deeper part => cases part
        · have sameFunction : .functionBody ∉ frames :=
            fun member => sameFunction (mem_append_left _ member)
          obtain ⟨inner, outer, rfl, below⟩ := ih formed loop inside sameFunction
          exact ⟨inner, outer ++ [.label name], by simp, below⟩
  | case2 n unlabeled =>
    rw [Node.unlabeled] at loop
    · cases occurs with
      | here => cases loop
      | @deeper _ _ _ step frames part inside =>
        rcases formed.loop_part loop part with ⟨rfl, rfl⟩ | contained
        · exact ⟨frames, [], rfl, inside⟩
        · exact absurd (mem_append_left _ (contained _ _ inside)) sameFunction
    · exact unlabeled

/-! ### Programs -/

theorem Frame.sameFunction_split {frame : Frame} (member : frame ∈ sameFunction frames) :
    ∃ inner outer, frames = inner ++ frame :: outer ∧ .functionBody ∉ inner := by
  obtain ⟨inner, outer, split⟩ := append_of_mem member
  refine ⟨inner, outer ++ frames.dropWhile (· ≠ functionBody), ?_, fun inside => ?_⟩
  · calc frames = sameFunction frames ++ frames.dropWhile (· ≠ functionBody) :=
          takeWhile_append_dropWhile.symm
      _ = inner ++ frame :: (outer ++ frames.dropWhile (· ≠ functionBody)) := by simp [split]
  · have early : functionBody ∈ sameFunction frames := split ▸ mem_append_left _ inside
    simpa using all_eq_true.mp all_takeWhile functionBody early

variable {settings : Settings} {code : Text} {root : Node}

/-- A labelled `continue` lies, in the same function, in a statement with its label. If this statement is a
loop, or a loop with further labels, then the `continue` lies in the body of the loop. -/
theorem parse_continues_loop (parsed : parse settings code = .ok root) {label : Node}
    (occurs : root.Occurs frames (.continueStatement (some label))) :
    ∃ name body inner outer, label = .identifier name ∧ frames = inner ++ .label name :: outer ∧
      .functionBody ∉ inner ∧ root.Occurs outer (.labeledStatement label body) ∧
      body.Occurs inner (.continueStatement (some label)) ∧
      ∀ loop ∈ body.unlabeled.loopBody?, ∃ innermost between,
        inner = innermost ++ .loopBody :: between ∧ loop.Occurs innermost (.continueStatement (some label)) := by
  obtain ⟨name, known, rfl⟩ := parse_obeys parsed _ _ occurs
  obtain ⟨inner, outer, rfl, sameFunction⟩ := Frame.sameFunction_split (Scope.mem_labels_within.mp known)
  obtain ⟨parent, body, above, part, below⟩ := occurs.split rfl
  obtain rfl := Node.eq_labeledStatement part
  refine ⟨name, body, inner, outer, rfl, rfl, sameFunction, above, below, fun loop isLoop => ?_⟩
  have whole := parse_formed parsed
  obtain ⟨c, k, formed⟩ := whole.occurs above
  cases formed with
  | labeledStatement name formed => exact formed.continues_loop isLoop below sameFunction

theorem continued_parsed : (match parse {} (Text.ofString "a:\x7bb:c:while(x)continue b;continue a\x7d") with
    | .ok (.program [.labeledStatement (.identifier a) (.blockStatement [.labeledStatement (.identifier b)
        (.labeledStatement (.identifier _) (.whileStatement _ (.continueStatement (some (.identifier b'))))),
        .continueStatement (some (.identifier a'))]), .emptyStatement]) =>
      decide (a = Text.ofString "a" ∧ b = Text.ofString "b" ∧ b' = b ∧ a' = a)
    | _ => false) = true := by decide +kernel

/-- A loop with two labels in a block with a label. The block can be continued just as well, although this
`continue` lies in no loop. -/
theorem parse_continues_loop_block :
    ∃ root frames label, parse {} (Text.ofString "a:\x7bb:c:while(x)continue b;continue a\x7d") = .ok root ∧
      root.Occurs frames (.continueStatement (some label)) ∧ label = .identifier (Text.ofString "b") ∧
      (∃ name body inner outer, label = .identifier name ∧ frames = inner ++ .label name :: outer ∧
        .functionBody ∉ inner ∧ root.Occurs outer (.labeledStatement label body) ∧
        body.Occurs inner (.continueStatement (some label)) ∧
        ∀ loop ∈ body.unlabeled.loopBody?, ∃ innermost between,
          inner = innermost ++ .loopBody :: between ∧
            loop.Occurs innermost (.continueStatement (some label))) ∧
      root.Occurs [.label (Text.ofString "a")]
        (.continueStatement (some (.identifier (Text.ofString "a")))) := by
  have shape := continued_parsed
  split at shape
  case h_2 => cases shape
  next a b c test b' a' parsed =>
    obtain ⟨rfl, rfl, rfl, rfl⟩ := of_decide_eq_true shape
    refine ⟨_, _, _, parsed, .of_descend [0, 1, 0, 1, 1, 1] rfl, rfl, ?_, .of_descend [0, 1, 1] rfl⟩
    exact parse_continues_loop parsed (.of_descend [0, 1, 0, 1, 1, 1] rfl)

end EcmaScript
