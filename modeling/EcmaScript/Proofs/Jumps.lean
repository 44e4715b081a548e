import EcmaScript.Proofs.Restoration

/-!
Jumps of a program lead somewhere. The context of a parser is a scope, and what a rule reads obeys it. A
program starts in the empty scope, so that every jump and label can be explained by the frames on the path
to it.
-/

namespace EcmaScript

namespace Grammar

open Parse

theorem program_obeys (depth : Nat) {p : Parser} (found : p.context = some {}) :
    Meets (program (readerOf depth)) p (fun node _ => node.Obeys {}) anyFault := by
  refine (peek_keeps p).bind fun _ q agrees => ?_
  have holds : ∀ c, q.context = some c → c = {} := by simp [agrees.context, found]
  have body := Discipline.scriptBody_upholds (d := restorative) (s := { context := {}, loose := true }) rfl
    (readerOf_restores depth) [] false q q ⟨rfl, holds⟩ holds
  refine body.bind fun nodes r met => ?_
  exact .of_bare trivial rfl fun node member => (met.1.2 node member).obeys

end Grammar

theorem parse_obeys {settings : Settings} {code : Text} {root : Node}
    (parsed : parse settings code = .ok root) : root.Obeys {} := by
  have obeys : Meets (Grammar.deep Grammar.program) (Parser.begin { settings } code)
      (fun node _ => node.Obeys {}) anyFault :=
    .get_bind (Grammar.program_obeys _ rfl)
  unfold parse Parser.program at parsed
  unfold Meets at obeys
  split at obeys
  next node q run =>
    rw [run] at parsed
    cases parsed
    exact obeys
  next fault q run =>
    rw [run] at parsed
    cases fault <;> cases parsed

/-- In the tree of a program every `return` lies in a function body, every `break` and `continue`
refers to a loop, `switch` or label around it in the same function, and no label is used again inside
the statement it stands before. -/
theorem parse_jumps_scoped {settings : Settings} {code : Text} {root : Node}
    (parsed : parse settings code = .ok root) :
    (∀ frames argument, root.Occurs frames (.returnStatement argument) → .functionBody ∈ frames) ∧
    (∀ frames, root.Occurs frames (.breakStatement none) →
      .loopBody ∈ Frame.sameFunction frames ∨ .switchClauses ∈ Frame.sameFunction frames) ∧
    (∀ frames, root.Occurs frames (.continueStatement none) → .loopBody ∈ Frame.sameFunction frames) ∧
    (∀ frames label, root.Occurs frames (.breakStatement (some label)) ∨
        root.Occurs frames (.continueStatement (some label)) →
      ∃ name, label = .identifier name ∧ .label name ∈ Frame.sameFunction frames) ∧
    (∀ frames label body, root.Occurs frames (.labeledStatement label body) →
      ∃ name, label = .identifier name ∧ .label name ∉ Frame.sameFunction frames) := by
  have obeys := parse_obeys parsed
  refine ⟨fun frames argument occurs => ?_, fun frames occurs => ?_, fun frames occurs => ?_,
    fun frames label occurs => ?_, fun frames label body occurs => ?_⟩
  · exact Scope.functionBody_mem_of_within (obeys _ _ occurs)
  · exact (obeys _ _ occurs).imp Scope.loopBody_mem_of_within Scope.switchClauses_mem_of_within
  · exact Scope.loopBody_mem_of_within (obeys _ _ occurs)
  · have lawful : ∃ name ∈ (Scope.within {} frames).labels, label = .identifier name :=
      occurs.elim (obeys _ _) (obeys _ _)
    obtain ⟨name, known, spelled⟩ := lawful
    exact ⟨name, spelled, Scope.mem_labels_within.mp known⟩
  · obtain ⟨name, fresh, spelled⟩ := obeys _ _ occurs
    exact ⟨name, spelled, fun known => fresh (Scope.mem_labels_within.mpr known)⟩

theorem loop_parsed : (match parse {} (Text.ofString "a:while(x)break a") with
    | .ok (.program [.labeledStatement _ (.whileStatement _ (.breakStatement (some _)))]) => true
    | _ => false) = true := by decide +kernel

/-- A labelled loop whose body leaves it by its label. -/
theorem parse_jumps_scoped_labeled_loop :
    ∃ root frames label, parse {} (Text.ofString "a:while(x)break a") = .ok root ∧
      root.Occurs frames (.breakStatement (some label)) ∧
      ∃ name, label = .identifier name ∧ .label name ∈ Frame.sameFunction frames := by
  have shape := loop_parsed
  split at shape
  case h_2 => cases shape
  next outer test label parsed =>
    refine ⟨_, _, label, parsed, .of_descend [0, 1, 1] rfl, ?_⟩
    exact (parse_jumps_scoped parsed).2.2.2.1 _ label (.inl (.of_descend [0, 1, 1] rfl))

end EcmaScript
