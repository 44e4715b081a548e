import EcmaScript.Proofs.Context

/-!
A statement that starts with a string is an expression statement. What starts with a string is never
read as a lone name, so it cannot be a label; directives are recognised by their first token, and
their statements have an expression to look at. Nothing is assumed of the reader here: the string
settles the matter before anything nested is read.
-/

namespace EcmaScript

def Parser.AtString (p : Parser) : Prop :=
  ∃ token value octal, p.lookahead = some token ∧ token.lexeme = .string value octal

theorem Parser.AtString.opened {p : Parser} (at_string : p.AtString) : p.opened.AtString :=
  at_string

namespace Grammar

open Parse

variable {α β : Type} {reader : Reader} {p : Parser}

/-- A token looked at in front of a string is that string. -/
theorem atString_lookahead {m : Token → ParseM α} {after : α → Parser → Prop} (at_string : p.AtString)
    (next : ∀ token value octal, token.lexeme = .string value octal →
      Meets (m token) p after anyFault) : Meets (lookahead >>= m) p after anyFault := by
  obtain ⟨token, value, octal, found, lexeme⟩ := at_string
  refine (lookahead_returns p).bind fun other q seen => ?_
  obtain ⟨rfl, seen⟩ := seen
  have same : other = token := Option.some.inj (seen.symm.trans found)
  exact next other value octal (same ▸ lexeme)

theorem primary_atString (at_string : p.AtString) :
    Meets (primary reader) p (fun node _ => node.name? = none) anyFault := by
  refine atString_lookahead at_string fun token value octal lexeme => ?_
  simp only [lexeme]
  refine .past fun _ _ => .past fun _ _ => .past fun _ _ => ?_
  exact rfl

theorem inherited_answers {part : ParseM α} {answers : α → Prop}
    (reads : Meets part p.opened (fun a _ => answers a) anyFault) :
    Meets (inherited part) p (fun a _ => answers a) anyFault :=
  inherited_iff.mpr reads

theorem isolated_answers {part : ParseM α} {answers : α → Prop}
    (reads : Meets part p.opened (fun a _ => answers a) anyFault) :
    Meets (isolated part) p (fun a _ => answers a) anyFault :=
  isolated_meets (reads.imp fun _ _ answered _ => answered) fun _ _ => trivial

theorem head_atString (at_string : p.AtString) :
    Meets (head reader) p (fun node _ => node.name? = none) anyFault := by
  refine atString_lookahead at_string fun token value octal lexeme => ?_
  refine (context_returns p).bind fun outer q found => ?_
  obtain ⟨rfl, -⟩ := found
  simp only [lexeme, reduceCtorEq, decide_false, Bool.false_and, Bool.false_eq_true, if_false]
  exact inherited_answers (primary_atString at_string.opened)

theorem templateLiteral_fails : Meets (templateLiteral : ParseM α) p (fun _ _ => False) anyFault := by
  refine .past fun token q => ?_
  split
  · split
    · trivial
    · exact .past fun _ _ => trivial
  · trivial

theorem suffixes_nameless (allowCall : Bool) {start : Node} (nameless : start.name? = none) :
    Meets (suffixes reader allowCall start) p (fun node _ => node.name? = none) anyFault := by
  refine repeated_returns (fun node _ => node.name? = none) (fun node q nameless => ?_) nameless
  refine .past fun token q => ?_
  split
  · exact .past fun _ _ => .past fun _ _ => rfl
  · split
    · exact .past fun _ _ => .past fun _ _ => rfl
    · exact nameless
  · exact .past fun _ _ => .past fun _ _ => rfl
  · exact templateLiteral_fails.imp fun _ _ impossible => impossible.elim
  · exact nameless

theorem leftHandSideAllowCall_atString (at_string : p.AtString) :
    Meets (leftHandSideAllowCall reader) p (fun node _ => node.name? = none) anyFault := by
  refine (context_returns p).bind fun outer q found => ?_
  obtain ⟨rfl, found⟩ := found
  refine Meets.bind (changeContext_lookahead _ q) fun _ q₁ same => ?_
  have at_string₁ : q₁.AtString := by simpa only [Parser.AtString, same] using at_string
  refine Meets.bind ((head_atString at_string₁).bind fun start q₂ nameless => ?_)
    fun node q₂ nameless => .past fun _ _ => nameless
  exact suffixes_nameless true nameless

theorem postfixExpression_atString (at_string : p.AtString) :
    Meets (postfixExpression reader) p (fun node _ => node.name? = none) anyFault := by
  refine Meets.bind (inherited_answers (leftHandSideAllowCall_atString at_string.opened))
    fun argument q nameless => .past fun _ q => ?_
  split
  · exact nameless
  · refine .past fun token q => ?_
    split
    · refine .past fun _ _ => .past fun _ _ => .past fun _ _ => ?_
      exact rfl
    · exact nameless

theorem unaryExpression_atString (at_string : p.AtString) :
    Meets (unaryExpression reader) p (fun node _ => node.name? = none) anyFault := by
  refine atString_lookahead at_string fun token value octal lexeme => ?_
  simp only [lexeme, Lexeme.updateOperator?, Lexeme.unaryOperator?]
  exact postfixExpression_atString at_string

theorem reduceAll_nameless {stack : List Pending} (waiting : stack ≠ []) (right : Node) :
    (reduceAll stack right).name? = none := by
  induction stack generalizing right with
  | nil => exact absurd rfl waiting
  | cons pending rest ih =>
    cases rest with
    | nil => rfl
    | cons next rest => exact ih (List.cons_ne_nil _ _) _

section

variable (at_string : p.AtString)
include at_string

theorem binaryExpression_atString :
    Meets (binaryExpression reader) p (fun node _ => node.name? = none) anyFault := by
  refine Meets.bind (inherited_answers (unaryExpression_atString at_string.opened))
    fun first q nameless => .past fun found q => ?_
  cases found with
  | none => exact nameless
  | some operator =>
    refine .past fun _ _ => .past fun _ _ => .past fun _ _ => ?_
    refine .past fun second q => ?_
    refine repeated_returns (fun state _ => state.1 ≠ []) ?_ (List.cons_ne_nil _ _)
    rintro ⟨stack, right⟩ q waiting
    refine .past fun found q => ?_
    cases found with
    | none => exact reduceAll_nameless waiting right
    | some operator =>
      refine .past fun _ _ => .past fun _ _ => ?_
      exact List.cons_ne_nil _ _

theorem conditionalExpression_atString :
    Meets (conditionalExpression reader) p (fun node _ => node.name? = none) anyFault := by
  refine Meets.bind (inherited_answers (binaryExpression_atString at_string.opened))
    fun test q nameless => .past fun _ q => ?_
  split
  · refine .past fun _ _ => .past fun _ _ => .past fun _ _ => ?_
    exact .past fun _ _ => .past fun _ _ => rfl
  · exact nameless

theorem assignmentExpression_atString :
    Meets (assignmentExpression reader) p (fun node _ => node.name? = none) anyFault := by
  refine .get_bind ?_
  refine (conditionalExpression_atString at_string).bind fun expression q nameless => ?_
  refine .past fun _ q => ?_
  split
  · trivial
  · refine .past fun token q => ?_
    split
    · exact nameless
    · refine .past fun _ _ => .past fun _ _ => .past fun _ _ => ?_
      exact .past fun _ _ => rfl

theorem expression_atString : Meets (expression reader) p (fun node _ => node.name? = none) anyFault := by
  refine Meets.bind (isolated_answers (assignmentExpression_atString at_string.opened))
    fun first q nameless => ?_
  refine .past fun _ q => ?_
  split
  · exact .past fun _ _ => rfl
  · exact nameless

theorem expressionOrLabel_atString : Meets (expressionOrLabel reader) p
      (fun node _ => ∃ expression, node = .expressionStatement expression) anyFault := by
  refine (expression_atString at_string).bind fun result q nameless => ?_
  split
  · cases nameless
  · exact .past fun _ _ => ⟨_, rfl⟩

theorem statement_atString : Meets (statement reader) p
      (fun node _ => ∃ expression, node = .expressionStatement expression) anyFault := by
  refine atString_lookahead at_string fun token value octal lexeme => ?_
  simp only [lexeme]
  refine .modify_bind ?_
  exact expressionOrLabel_atString at_string

theorem listItem_atString : Meets (listItem reader) p
      (fun node _ => ∃ expression, node = .expressionStatement expression) anyFault := by
  refine atString_lookahead at_string fun token value octal lexeme => ?_
  simp only [lexeme]
  exact statement_atString at_string

end

/-- One directive more, or the end of the directives. `check` is made of the octal literals so far
where code becomes strict. -/
def directiveRound (reader : Reader) (check : Option Token → ParseM Unit)
    (state : List Node × Option Token) : ParseM ((List Node × Option Token) ⊕ List Node) := do
  if ← inside then do
    let token ← lookahead
    match token.lexeme with
    | .string _ isOctal => do
      let statement ← reader .listItem
      let body := state.1 ++ [statement]
      if ← isDirective statement then do
        let src ← source
        if src.slice (token.start + 1) (token.stop - 1) = Text.ofString "use strict" then do
          modify fun p => { p with strict := some true }
          check state.2
          pure (.inl (body, state.2))
        else pure (.inl (body, state.2.or (if isOctal then some token else none)))
      else pure (.inr body)
    | _ => pure (.inr state.1)
  else pure (.inr state.1)

theorem directives_eq (reader : Reader) :
    directives reader = repeated (directiveRound reader refuseOctal) ([], none) :=
  rfl

/-- The statement that starts with the string in the lookahead, if one is there, with its first token
and, if it is a directive, with the text between the quotes. -/
def stringStatement? (reader : Reader) : ParseM (Option (Token × Node × Option Text)) := do
  if ← inside then do
    let token ← lookahead
    match token.lexeme with
    | .string _ _ => do
      let statement ← reader .listItem
      if ← isDirective statement then do
        let src ← source
        pure (some (token, statement, some (src.slice (token.start + 1) (token.stop - 1))))
      else pure (some (token, statement, none))
    | _ => pure none
  else pure none

/-- The token, if it is a string with an octal escape. -/
def octalString? (token : Token) : Option Token :=
  match token.lexeme with
  | .string _ true => some token
  | _ => none

/-- What is made of a statement that starts with a string. -/
def directiveAnswer (check : Option Token → ParseM Unit) (state : List Node × Option Token) :
    Option (Token × Node × Option Text) → ParseM ((List Node × Option Token) ⊕ List Node)
  | none => pure (.inr state.1)
  | some (_, statement, none) => pure (.inr (state.1 ++ [statement]))
  | some (token, statement, some text) =>
    if text = Text.ofString "use strict" then do
      modify fun p => { p with strict := some true }
      check state.2
      pure (.inl (state.1 ++ [statement], state.2))
    else pure (.inl (state.1 ++ [statement], state.2.or (octalString? token)))

theorem directiveRound_eq (reader : Reader) (check : Option Token → ParseM Unit)
    (state : List Node × Option Token) :
    directiveRound reader check state = stringStatement? reader >>= directiveAnswer check state := by
  unfold directiveRound stringStatement?
  rw [bind_assoc]
  congr 1
  funext isInside
  cases isInside with
  | false => rfl
  | true =>
    simp only [if_true, bind_assoc]
    congr 1
    funext token
    cases lexeme : token.lexeme with
    | string value isOctal =>
      have octal : octalString? token = if isOctal then some token else none := by
        cases isOctal <;> simp [octalString?, lexeme]
      simp only [bind_assoc]
      congr 1
      funext statement
      congr 1
      funext isDirective
      cases isDirective with
      | false => rfl
      | true =>
        simp only [if_true, bind_assoc, pure_bind, directiveAnswer, octal]
    | _ => rfl

end Grammar

end EcmaScript
