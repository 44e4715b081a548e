import EcmaScript.Proofs.Comparison

/-!
Disciplines. A few steps of the grammar look at more than the registers and tokens that two runs have in
common: at places in the source, at the settings, or at the context and strictness, which they change for
a while. A comparison that gives an account of these as well is a discipline, and the rules obey it. Two
kinds of comparisons have little to show: those of a parser with itself, and those to which context and
strictness are all the same.
-/

namespace EcmaScript

/-! ### Steps that look at places -/

/-- Two parsers at the same place of the same source. -/
structure Parser.Abreast (p q : Parser) : Prop where
  source : q.source = p.source
  cursor : q.cursor = p.cursor
  start : q.start = p.start
  last : q.last = p.last

namespace Parse

/-- The first character of the lookahead, if there is one. -/
def firstCharacter? : ParseM (Option CodePoint) := do
  let src ← source
  let mark ← startMark
  return src[mark.index]?

/-- The first character of the lookahead, which must be there. -/
def startCharacter : ParseM CodePoint := do
  characterAt (← startMark).index

theorem consumeSemicolon_eq : consumeSemicolon = (do
    if (← firstCharacter?) = some 0x3B then drop
    else do
      if ← atMark .semicolon then drop
      else do
        if ← afterLineBreak then pure ()
        else do
          modify fun p => { p with last := p.start }
          let token ← lookahead
          if token.lexeme = .endOfSource || token.lexeme = .punctuator .closeBrace then pure ()
          else unexpected token) := by
  simp only [consumeSemicolon, firstCharacter?, bind_assoc, pure_bind]

end Parse

namespace Grammar

open Parse

def breakTail (immediate : Bool) : ParseM Node := do
  let label ← jumpTail (fun c => c.inIteration || c.inSwitch) .illegalBreak immediate
  pure (.breakStatement label)

/-- The rest of a `return` statement whose argument is known to begin. -/
def quickArgument (reader : Reader) : ParseM Node := do
  let argument ← expression reader
  consumeSemicolon
  pure (.returnStatement (some argument))

/-- The rest of a `return` statement that looks at the next token only. -/
def plainArgument (reader : Reader) : ParseM Node := do
  if ← afterLineBreak then pure (.returnStatement none)
  else do
    let lexeme := (← lookahead).lexeme
    let argument ←
      if lexeme = .punctuator .semicolon || lexeme = .punctuator .closeBrace
          || lexeme = .endOfSource then pure none
      else some <$> expression reader
    consumeSemicolon
    pure (.returnStatement argument)

def imported : ParseM Node := do
  drop
  let module ← bindingIdentifier
  consumeSemicolon
  pure (.pyimportStatement module)

/-- What stands behind the keyword `pyimport` in the lookahead. -/
def importItem (reader : Reader) : ParseM Node := do
  if (← get).settings.pyimport then pyimportStatement else statement reader

end Grammar

namespace Comparison

open Parse Grammar

variable {α β : Type}

/-! ### Laws -/

/-- Computations that give the same expression. -/
abbrev Reads (d : Comparison) (s : Situation) (m n : ParseM Node) : Prop :=
  d.Upholds s m n d.expression

abbrev ReadsAll (d : Comparison) (s : Situation) (m n : ParseM (List Node)) : Prop :=
  d.Upholds s m n fun nodes => ∀ node ∈ nodes, d.expression node

abbrev ReadsSome (d : Comparison) (s : Situation) (m n : ParseM (Option Node)) : Prop :=
  d.Upholds s m n fun found => ∀ node ∈ found, d.expression node

/-- Computations that give the same statement. -/
abbrev States (d : Comparison) (s : Situation) (m n : ParseM Node) : Prop :=
  d.Upholds s m n (d.statement s.context)

/-- Readers that read the same. -/
def Trusts (d : Comparison) (reader reader' : Reader) : Prop :=
  ∀ goal s, d.Upholds s (reader goal) (reader' goal) (d.Admits s.context goal)

namespace Trusts

variable {d : Comparison} {s : Situation} {reader reader' : Reader}

section

variable (trusts : d.Trusts reader reader')
include trusts

theorem assignment : d.Reads s (reader .assignment) (reader' .assignment) :=
  trusts .assignment s

theorem unary : d.Reads s (reader .unary) (reader' .unary) :=
  trusts .unary s

theorem leftHandSide : d.Reads s (reader .leftHandSide) (reader' .leftHandSide) :=
  trusts .leftHandSide s

theorem statement : d.States s (reader .statement) (reader' .statement) :=
  trusts .statement s

theorem listItem : d.States s (reader .listItem) (reader' .listItem) :=
  trusts .listItem s

end

end Trusts

/-- A string statement as the directives see it: its first token, the statement, and the text of a
directive. -/
structure SameStatement (d : Comparison) (a b : Option (Token × Node × Option Text)) : Prop where
  same : a.map (fun found => (found.1.lexeme, found.2)) = b.map fun found => (found.1.lexeme, found.2)
  token : ∀ found, a = some found → d.token found.1 found.1
  statement : ∀ found, a = some found → ∀ c, d.statement c found.2.1

def Switched (d : Comparison) : Prop :=
  ∀ {s hands apart p q t reader reader' answers}, d.Holds s hands apart p q →
    p.lookahead = some t → t.lexeme = .keyword .pyimport → d.Upholds s imported imported answers →
    d.Upholds s (statement reader) (statement reader') answers →
    d.At s apart p q (importItem reader) (importItem reader') (Same answers) hands

/-- Steps that look at places of the source, and the step that looks at the settings. -/
structure Places (d : Comparison) : Prop where
  inside : ∀ {s}, d.Maintains s inside inside
  afterLineBreak : ∀ {s}, d.Maintains s afterLineBreak afterLineBreak
  firstCharacter : ∀ {s}, d.Maintains s firstCharacter? firstCharacter?
  startCharacter : ∀ {s}, d.Maintains s startCharacter startCharacter
  strings : ∀ {s reader reader'}, d.Trusts reader reader' →
    d.Takes s [] (stringStatement? reader) (stringStatement? reader') d.SameStatement
  breaks : ∀ {s answers}, (∀ immediate, d.Upholds s (breakTail immediate) (breakTail immediate) answers) →
    d.Upholds s breakStatement breakStatement answers
  returns : ∀ {s reader reader' answers}, ((d.binding → s.context.inFunctionBody = true) →
      d.Upholds s (quickArgument reader) (quickArgument reader') answers ∧
      d.Upholds s (plainArgument reader) (plainArgument reader') answers) →
    d.Upholds s (returnStatement reader) (returnStatement reader') answers
  imports : d.Switched

structure Scopes (d : Comparison) : Prop where
  undone : ∀ {α β} [Bears α] [Bears β] {s given} {part part' : ParseM α} {answers : β → Prop}
    (change restore : Context → Context) (f : α → β),
    (d.binding → restore (change s.context) = s.context) → (∀ a, Covers (trees a) (trees (f a))) →
    d.Takes { s with context := change s.context } given part part' (Same fun a => answers (f a)) →
    d.Takes s given (do changeContext change; let a ← part; changeContext restore; pure (f a))
      (do changeContext change; let a ← part'; changeContext restore; pure (f a)) (Same answers)
  bodies : ∀ {s body body' check check' answers}, d.Upholds { s with loose := true } body body' answers →
    d.Maintains { s with loose := true } check check' →
    d.Upholds s (bodyThen body check) (bodyThen body' check') answers
  stricter : ∀ {s}, s.loose = true → d.Maintains s (modify fun p => { p with strict := some true })
    (modify fun p => { p with strict := some true })

end Comparison

/-- A comparison that gives an account of all steps of the grammar. -/
structure Discipline extends Comparison where
  places : toComparison.Places
  scopes : toComparison.Scopes

namespace Comparison

open Parse Grammar

variable {α β : Type} {d : Comparison} {s : Situation} {given : List Node}

/-! ### Directives -/

/-- Only an expression statement is asked whether it is a directive. -/
theorem isDirective_upholds (statement : Node) : d.Upholds s (isDirective statement)
    (isDirective statement) fun _ => ∃ expression, statement = .expressionStatement expression := by
  cases statement
  case expressionStatement expression => exact .pure ⟨expression, rfl⟩ .refl
  all_goals exact .throw (by simp)

theorem SameStatement.none : d.SameStatement none none :=
  ⟨rfl, nofun, nofun⟩

theorem SameStatement.some {t u : Token} (known : d.token t u) {expression : Node} (text : Option Text)
    (stated : d.statement s.context (.expressionStatement expression)) :
    d.SameStatement (some (t, .expressionStatement expression, text))
      (some (u, .expressionStatement expression, text)) where
  same := by simp [d.lexeme known]
  token := by
    rintro _ ⟨⟩
    exact d.self known
  statement := by
    rintro _ ⟨⟩ c
    exact d.restate stated

/-! ### The same settings -/

theorem Switched.of_settings
    (settled : ∀ {s}, @Takes Parser .none d s [] get get fun p q => q.settings = p.settings) :
    d.Switched := by
  have looks {s : Situation} {yes no yes' no' : ParseM Node} {answers : Node → Prop}
      (first : d.Upholds s yes yes' answers) (second : d.Upholds s no no' answers) :
      d.Upholds s (do if (← get).settings.pyimport then yes else no)
        (do if (← get).settings.pyimport then yes' else no') answers := by
    refine @Takes.bindVia Parser Node .none _ d s [] _ _ _ _ _ _ settled ?_
    intro p q same
    rw [trees_none, List.append_nil, same]
    exact .ite first second
  intro _ _ _ _ _ _ _ _ _ holds _ _ imported statement
  exact Takes.at_base (looks (looks imported .unsupported) statement) holds

/-! ### The same source -/

structure Alone (d : Comparison) : Prop where
  same : ∀ {s}, @Takes Parser .none d s [] get get Parser.Abreast
  token : ∀ {t u}, d.token t u → u.start = t.start ∧ u.stop = t.stop

namespace Alone

section

variable (alone : d.Alone)
include alone

theorem get [Bears α] {f g : Parser → ParseM α} {alike : α → α → Prop}
    (next : ∀ p q, p.Abreast q → d.Takes s given (f p) (g q) alike) :
    d.Takes s given (get >>= f) (get >>= g) alike := by
  refine @Takes.bindVia Parser α .none _ d s given _ _ f g _ alike alone.same ?_
  intro p q abreast
  rw [trees_none, List.append_nil]
  exact next p q abreast

theorem source : d.Maintains s source source := by
  refine alone.get fun p q abreast => ?_
  rw [abreast.source]
  cases p.source with
  | some src => exact .pure trivial .refl
  | none => exact .throw (by simp)

theorem startMark : d.Maintains s startMark startMark := by
  refine alone.get fun p q abreast => ?_
  rw [abreast.start]
  cases p.start with
  | some src => exact .pure trivial .refl
  | none => exact .throw (by simp)

theorem lastMark : d.Maintains s lastMark lastMark := by
  refine alone.get fun p q abreast => ?_
  rw [abreast.last]
  cases p.last with
  | some src => exact .pure trivial .refl
  | none => exact .throw (by simp)

theorem characterAt (index : Nat) : d.Maintains s (characterAt index) (characterAt index) := by
  refine .past alone.source fun src => ?_
  cases src[index]? with
  | some c => exact .pure trivial .refl
  | none => exact .throw (by simp)

theorem inside : d.Maintains s inside inside :=
  .past alone.source fun _ => .past alone.startMark fun _ => .pure trivial .refl

theorem nameFollows : d.Maintains s nameFollows nameFollows := by
  refine .past alone.lastMark fun _ => .past (alone.characterAt _) fun _ => .ite ?_ ?_
  · exact .past (alone.characterAt _) fun _ => .pure trivial .refl
  · exact .pure trivial .refl

theorem strings {reader reader' : Reader} (trusts : d.Trusts reader reader') :
    d.Takes s [] (stringStatement? reader) (stringStatement? reader') d.SameStatement := by
  refine .past alone.inside fun _ => .ite ?_ (.give .none .none .refl)
  refine .looking fun t u known _ => ?_
  obtain ⟨start, stop⟩ := alone.token known
  rw [d.lexeme known, start, stop]
  split
  · refine .bind trusts.listItem fun statement stated => .learn (isDirective_upholds _) ?_
    rintro _ ⟨expression, rfl⟩
    refine .ite (.past alone.source fun src => ?_) ?_
    · exact .give (.some (d.self known) _ stated) (.some known _ stated) .refl
    · exact .give (.some (d.self known) _ stated) (.some known _ stated) .refl
  · exact .give .none .none .refl

theorem places (imports : d.Switched) : d.Places where
  inside := alone.inside
  afterLineBreak := alone.get fun p q abreast => by
    rw [abreast.cursor]
    exact .pure trivial .refl
  firstCharacter := .past alone.source fun _ => .past alone.startMark fun _ => .pure trivial .refl
  startCharacter := .past alone.startMark fun _ => alone.characterAt _
  strings := alone.strings
  breaks tails := by
    refine .skip <| .past alone.lastMark fun _ => ?_
    exact .past (alone.characterAt _) fun _ => tails _
  returns tails := by
    refine .skip <| .learn context_upholds fun c bound => ?_
    split
    next inBody =>
      have tails := tails fun binding => bound binding ▸ inBody
      exact .past alone.nameFollows fun _ => .ite tails.1 tails.2
    next => exact .complain
  imports := imports

end

end Alone

/-! ### Whatever the context -/

structure Lax (d : Comparison) : Prop where
  held : ∀ {s s' hands apart p q}, d.Holds s hands apart p q → d.Holds s' hands apart p q
  anywhere : ∀ {α} [Bears α] {s s' apart p q base} {m n : ParseM α} {alike : α → α → Prop},
    d.At s apart p q m n alike base → d.At s' apart p q m n alike base
  changeContext : ∀ {s} (change : Context → Context),
    d.Maintains s (changeContext change) (changeContext change)
  stricter : ∀ {s}, d.Maintains s (modify fun p => { p with strict := some true })
    (modify fun p => { p with strict := some true })
  restored : ∀ {s s' hands apart before before'}, d.Holds s hands apart before before' →
    d.Maintains s' (modify fun p => { p with strict := before.strict })
      (modify fun p => { p with strict := before.strict })

theorem Lax.takes [Bears α] (lax : d.Lax) {s' : Situation} {m n : ParseM α} {alike : α → α → Prop}
    (takes : d.Takes s given m n alike) : d.Takes s' given m n alike :=
  fun base apart p q holds => lax.anywhere (takes base apart p q (lax.held holds))

theorem Lax.scopes (lax : d.Lax) : d.Scopes where
  undone _ _ f _ kept takes := by
    refine .past (lax.changeContext _) fun _ => (lax.takes takes).pass fun a answered => ?_
    exact .past (lax.changeContext _) fun _ => .pure answered (kept a)
  bodies := by
    intro s body body' check check' answers body_upholds checks base apart p q holds
    apply d.bind (d.get holds)
    intro before before' apart' p' q' run seen held
    cases run
    rw [← seen.strict]
    have restored := @Lax.restored d lax s s base apart p q (by simpa using holds)
    have rest : d.Upholds s (do
        let result ← body
        check
        modify fun r => { r with strict := p.strict }
        pure result) (do
        let result ← body'
        check'
        modify fun r => { r with strict := p.strict }
        pure result) answers := by
      refine (lax.takes body_upholds).bind fun result answered => .past (lax.takes checks) fun _ => ?_
      exact .past restored fun _ => .pure answered .refl
    exact rest.at_base (d.recalled (.of_mem (by simp)) held)
  stricter _ := lax.stricter

end Comparison

end EcmaScript
