import EcmaScript.Proofs.Legibility
import EcmaScript.Proofs.Steps

/-!
Reading printed pieces. A parser stands before a list of pieces if its lookahead is the first of them
and the scanner supplies the others. A part of the grammar is then known by the pieces it takes and
the answer it gives; what it does not take is left for the next part.
-/

namespace EcmaScript

open Parse

variable {α β : Type} {src : Source} {c d e : Context}

/-! ### What is ahead -/

/-- The parser is about to read the pieces, in code that is not strict. The context is that of a
whole program unless another one is given. If `target` is set, what it has read last can be
assigned. -/
structure Stands (src : Source) (pieces : List Piece) (target : Bool) (p : Parser)
    (c : Context := {}) : Prop where
  token : ∃ token, Coherent src p token ∧ token.Matches pieces
  supplies : pieces ≠ [] → Supplies src pieces.tail p.cursor
  foretold : ∀ mark, p.last = some mark ∨ p.start = some mark → Foretells src mark.index pieces
  short : pieces.length ≤ src.size
  sameLine : p.cursor.lineBreak = some true → pieces <:+ [.mark .semicolon]
  strict : p.strict = some false
  context : p.context = some c
  settled : p.coverInitialized = none
  target : target = true → p.assignmentTarget = some true

/-- The registers of `q` are those of `p`, except for those that tell of tokens. -/
structure Parser.Alike (p q : Parser) : Prop where
  strict : q.strict = p.strict
  context : q.context = p.context
  settled : q.coverInitialized = p.coverInitialized
  target : q.assignmentTarget = p.assignmentTarget

namespace Parse

variable {p : Parser} {returns : Token → Cursor → Prop}

section

variable (source : p.source = some src)
include source

/-- A token that the scanner supplies is read without any fault. -/
theorem fetch_succeeds
    (strict : p.strict = some false) (supplies : Meets (nextToken src) p.cursor returns noFault) :
    Meets lex p (fun _ q => ∃ token, returns token q.cursor ∧ q.lookahead = some token ∧
      p.Alike q) noFault ∧
    Meets peek p (fun _ q => ∃ token, returns token q.cursor ∧ q.lookahead = some token ∧
      p.Alike q ∧ q.last = q.start) noFault := by
  refine ⟨(lex_iff source).mpr ?_, (peek_iff source).mpr ?_⟩
  all_goals
    refine (Meets.bind_iff.mp supplies).imp fun _ between reads => ?_
    rw [Parser.isStrict, strict]
    refine Meets.imp reads fun token cursor met => ⟨token, met, rfl, ?_⟩
  · exact ⟨rfl, rfl, rfl, rfl⟩
  · exact ⟨⟨rfl, rfl, rfl, rfl⟩, rfl⟩

end

/-- The token is the first of the pieces, and the cursor behind it supplies the others. -/
structure Supplied (src : Source) (pieces : List Piece) (token : Token) (cursor : Cursor) : Prop where
  isFirst : token.Matches pieces
  foretold : Foretells src token.start pieces
  sameLine : cursor.lineBreak = some true → pieces <:+ [.mark .semicolon]
  supplies : pieces ≠ [] → Supplies src pieces.tail cursor

variable {pieces : List Piece}

theorem supplies_meets {cursor : Cursor} (supplies : Supplies src pieces cursor) :
    Meets (nextToken src) cursor (Supplied src pieces) noFault := by
  cases pieces with
  | nil => exact Meets.imp supplies fun _ _ isEnd => ⟨isEnd, trivial, fun _ => List.nil_suffix, nofun⟩
  | cons piece pieces =>
    refine Meets.imp supplies.2 fun token d met => ?_
    obtain ⟨isFirst, foretold, sameLine, supplies⟩ := met
    exact ⟨isFirst, foretold, fun broken => sameLine broken ▸ List.suffix_rfl, fun _ => supplies⟩

/-- After a token has been read, the parser stands before the pieces that the scanner had. -/
theorem stands_of_lexed {target : Bool} {token : Token} {q : Parser}
    (supplied : Supplied src pieces token q.cursor) (short : pieces.length ≤ src.size)
    (behind : ∀ mark, q.last = some mark → mark.index = token.start ∨ Foretells src mark.index pieces)
    (lookahead : q.lookahead = some token) (lexed : Lexed src p q) (strict : q.strict = some false)
    (context : q.context = some c) (settled : q.coverInitialized = none)
    (isTarget : target = true → q.assignmentTarget = some true) : Stands src pieces target q c := by
  obtain ⟨token', coherent⟩ := lexed.coherent
  obtain rfl : token' = token := by
    rw [coherent.lookahead] at lookahead
    exact Option.some.inj lookahead
  have foretold : ∀ mark, q.last = some mark ∨ q.start = some mark → Foretells src mark.index pieces := by
    rintro mark (last | start)
    · obtain same | foretold := behind mark last
      · exact same ▸ supplied.foretold
      · exact foretold
    · have same := coherent.start_eq
      rw [start] at same
      have same : mark.index = token'.start := Option.some.inj same
      exact same ▸ supplied.foretold
  exact ⟨⟨token', coherent, supplied.isFirst⟩, supplied.supplies, foretold, short,
    supplied.sameLine, strict, context, settled, isTarget⟩

theorem lex_stands {piece : Piece} {target : Bool} (stands : Stands src (piece :: pieces) target p c) :
    Meets lex p (fun given q => (∃ token, given = some token ∧ token.Matches (piece :: pieces)) ∧
      Stands src pieces target q c) noFault := by
  obtain ⟨token, coherent, isFirst⟩ := stands.token
  have lexed : Meets lex p (fun given q => given = p.lookahead ∧ Lexed src p q ∧
      q.last = some p.cursor.toMark) anyFault :=
    (lex_meets coherent.toPoised).mono (fun _ _ met => met) fun _ _ _ => trivial
  have supplies := stands.supplies (List.cons_ne_nil piece pieces)
  refine ((fetch_succeeds coherent.source stands.strict (supplies_meets supplies)).1.and_returns lexed).imp ?_
  rintro _ q ⟨⟨next, supplied, lookahead, alike⟩, rfl, lexed, last⟩
  refine ⟨⟨token, coherent.lookahead, isFirst⟩, ?_⟩
  refine stands_of_lexed supplied (Nat.le_trans (Nat.le_succ _) stands.short) (fun mark found => ?_)
    lookahead lexed (alike.strict.trans stands.strict) (alike.context.trans stands.context)
    (alike.settled.trans stands.settled) fun set => alike.target.trans (stands.target set)
  rw [last] at found
  exact .inr (Option.some.inj found ▸ supplies.foretells)

theorem peek_stands (poised : Poised src p) (strict : p.strict = some false)
    (context : p.context = some c) (settled : p.coverInitialized = none)
    (supplies : Supplies src pieces p.cursor) (short : pieces.length ≤ src.size) :
    Meets peek p (fun _ q => Stands src pieces false q c) noFault := by
  have lexed : Meets peek p (fun _ q => Lexed src p q) anyFault :=
    (peek_meets poised).mono (fun _ _ met => met) fun _ _ _ => trivial
  refine ((fetch_succeeds poised.source strict (supplies_meets supplies)).2.and_returns lexed).imp ?_
  rintro _ q ⟨⟨next, supplied, lookahead, alike, here⟩, lexed⟩
  refine stands_of_lexed supplied short (fun mark found => ?_) lookahead lexed
    (alike.strict.trans strict) (alike.context.trans context) (alike.settled.trans settled) nofun
  obtain ⟨token, coherent⟩ := lexed.coherent
  have same := coherent.start_eq
  rw [← here, found, Option.some.inj (coherent.lookahead.symm.trans lookahead)] at same
  exact .inl (Option.some.inj same)

end Parse

namespace Stands

variable {pieces : List Piece} {f g : Bool} {p q : Parser}

theorem apart (stands : Stands src pieces f p c) (apart : p.Apart q) (strict : q.strict = p.strict)
    (settled : q.coverInitialized = none) (target : g = true → q.assignmentTarget = some true) :
    Stands src pieces g q c := by
  obtain ⟨token, coherent, isFirst⟩ := stands.token
  have coherent' := coherent.apart apart
  obtain ⟨-, start, last, cursor, -, context⟩ := apart
  exact
    { token := ⟨token, coherent', isFirst⟩
      supplies := cursor ▸ stands.supplies
      foretold := last ▸ start ▸ stands.foretold
      short := stands.short
      sameLine := cursor ▸ stands.sameLine
      strict := strict.trans stands.strict
      context := context.trans stands.context
      settled
      target }

theorem opened (stands : Stands src pieces f p c) : Stands src pieces true p.opened c :=
  stands.apart .rfl rfl rfl fun _ => rfl

theorem forget (stands : Stands src pieces f p c) : Stands src pieces false p c :=
  { stands with target := nofun }

end Stands

/-! ### Reading pieces -/

/-- From the pieces the part reads an answer of this kind and leaves the rest. It may leave another
context than it has found. -/
def Obtains (src : Source) (pieces : List Piece) (f : Bool) (m : ParseM α) (answers : α → Prop)
    (rest : List Piece) (g : Bool) (c : Context := {}) (d : Context := c) : Prop :=
  ∀ p, Stands src pieces f p c → Meets m p (fun a q => answers a ∧ Stands src rest g q d) noFault

/-- From the pieces the part reads `a` and leaves the rest. -/
def Reads (src : Source) (pieces : List Piece) (f : Bool) (m : ParseM α) (a : α)
    (rest : List Piece) (g : Bool) (c : Context := {}) (d : Context := c) : Prop :=
  Obtains src pieces f m (· = a) rest g c d

section

variable {pieces middle rest : List Piece} {piece : Piece} {f g h : Bool}
variable {m n : ParseM α} {k : α → ParseM β} {a : α} {b : β}
variable {answers : α → Prop} {replies : β → Prop}

namespace Obtains

theorem bind (first : Obtains src pieces f m answers middle g c d)
    (next : ∀ a, answers a → Obtains src middle g (k a) replies rest h d e) :
    Obtains src pieces f (m >>= k) replies rest h c e :=
  fun p stands => (first p stands).bind fun a q met => next a met.1 q met.2

/-- What comes after a part whose answer is known. -/
theorem after (first : Reads src pieces f m a middle g c d)
    (next : Obtains src middle g (k a) replies rest h d e) :
    Obtains src pieces f (m >>= k) replies rest h c e :=
  bind first fun _ same => same ▸ next

theorem pure (right : answers a) : Obtains src pieces f (Pure.pure a) answers pieces f c :=
  fun _ stands => ⟨right, stands⟩

theorem map {F : α → β} (reads : Obtains src pieces f m answers rest g c d)
    (right : ∀ a, answers a → replies (F a)) : Obtains src pieces f (F <$> m) replies rest g c d := by
  rw [← bind_pure_comp]
  exact bind reads fun a answered => pure (right a answered)

theorem ite {condition : Prop} [Decidable condition] (yes : Obtains src pieces f m answers rest g c d)
    (no : Obtains src pieces f n answers rest g c d) :
    Obtains src pieces f (if condition then m else n) answers rest g c d := by
  split
  next => exact yes
  next => exact no

theorem lookahead {k : Token → ParseM β} (next : ∀ token : Token, token.Matches pieces →
      Obtains src pieces f (k token) replies rest h c d) :
    Obtains src pieces f (Parse.lookahead >>= k) replies rest h c d := by
  intro p stands
  obtain ⟨token, coherent, isFirst⟩ := stands.token
  refine .into (.get_bind ?_)
  simp only [coherent.lookahead]
  exact next token isFirst p stands

theorem source {k : Source → ParseM β} (next : Obtains src pieces f (k src) replies rest h c d) :
    Obtains src pieces f (Parse.source >>= k) replies rest h c d := by
  intro p stands
  obtain ⟨token, coherent, -⟩ := stands.token
  refine .into (.get_bind ?_)
  rw [coherent.source]
  exact next p stands

theorem lastMark {k : Mark → ParseM β} (next : ∀ mark : Mark, Foretells src mark.index pieces →
      Obtains src pieces f (k mark) replies rest h c d) :
    Obtains src pieces f (Parse.lastMark >>= k) replies rest h c d := by
  intro p stands
  obtain ⟨token, coherent, -⟩ := stands.token
  obtain ⟨mark, last⟩ := coherent.last
  refine .into (.get_bind ?_)
  rw [last]
  exact next mark (stands.foretold mark (.inl last)) p stands

theorem characterAt {index : Nat} {ch : CodePoint} {k : CodePoint → ParseM β}
    (found : src[index]? = some ch) (next : Obtains src pieces f (k ch) replies rest h c d) :
    Obtains src pieces f (Parse.characterAt index >>= k) replies rest h c d := by
  refine after (source ?_) next
  simp only [found]
  exact pure rfl

theorem unlessStrict {k : Bool → ParseM β} (next : Obtains src pieces f (k false) replies rest h c d) :
    Obtains src pieces f (isStrict >>= k) replies rest h c d := by
  intro p stands
  refine .into (.get_bind (.pure ?_))
  rw [Parser.isStrict, stands.strict]
  exact next p stands

end Obtains

variable {mark : Punctuator}
variable {word : Keyword}

namespace Reads

theorem bind (first : Reads src pieces f m a middle g c d)
    (next : Reads src middle g (k a) b rest h d e) : Reads src pieces f (m >>= k) b rest h c e :=
  Obtains.after first next

theorem pure : Reads src pieces f (Pure.pure a) a pieces f c :=
  Obtains.pure rfl

theorem map {F : α → β} (reads : Reads src pieces f m a rest g c d) :
    Reads src pieces f (F <$> m) (F a) rest g c d :=
  Obtains.map reads fun _ same => congrArg F same

theorem forget (reads : Reads src pieces f m a rest g c d) : Reads src pieces f m a rest false c d :=
  fun p stands => (reads p stands).imp fun _ _ met => ⟨met.1, met.2.forget⟩

theorem anyTarget (reads : Reads src pieces false m a rest g c d) : Reads src pieces f m a rest g c d :=
  fun p stands => reads p stands.forget

theorem ite {condition : Prop} [Decidable condition] (yes : Reads src pieces f m a rest g c d)
    (no : Reads src pieces f n a rest g c d) :
    Reads src pieces f (if condition then m else n) a rest g c d :=
  Obtains.ite yes no

theorem change {change : Parser → Parser}
    (keeps : ∀ p, Stands src pieces f p c → Stands src pieces g (change p) d) :
    Reads src pieces f (modify change) ⟨⟩ pieces g c d :=
  fun p stands => ⟨rfl, keeps p stands⟩

theorem state {k : Parser → ParseM β} (next : ∀ p, Reads src pieces f (k p) b rest h c d) :
    Reads src pieces f (get >>= k) b rest h c d :=
  fun p stands => .get_bind (next p p stands)

theorem ifTarget (yes : Reads src pieces true m a rest g c d) :
    Reads src pieces true (do if (← get).assignmentTarget = some true then m else n) a rest g c d := by
  intro p stands
  refine .get_bind ?_
  rw [if_pos (stands.target rfl)]
  exact yes p stands

theorem lookahead {k : Token → ParseM β}
    (next : ∀ token : Token, token.Matches pieces → Reads src pieces f (k token) b rest h c d) :
    Reads src pieces f (Parse.lookahead >>= k) b rest h c d :=
  Obtains.lookahead next

theorem source {k : Source → ParseM β} (next : Reads src pieces f (k src) b rest h c d) :
    Reads src pieces f (Parse.source >>= k) b rest h c d :=
  Obtains.source next

theorem startMark {k : Mark → ParseM β}
    (next : ∀ mark : Mark, Foretells src mark.index pieces → Reads src pieces f (k mark) b rest h c d) :
    Reads src pieces f (Parse.startMark >>= k) b rest h c d := by
  intro p stands
  obtain ⟨token, coherent, -⟩ := stands.token
  obtain ⟨mark, start⟩ := coherent.start
  refine .into (.get_bind ?_)
  rw [start]
  exact next mark (stands.foretold mark (.inr start)) p stands

theorem lastMark {k : Mark → ParseM β}
    (next : ∀ mark : Mark, Foretells src mark.index pieces → Reads src pieces f (k mark) b rest h c d) :
    Reads src pieces f (Parse.lastMark >>= k) b rest h c d :=
  Obtains.lastMark next

theorem characterAt {index : Nat} {ch : CodePoint} {k : CodePoint → ParseM β}
    (found : src[index]? = some ch) (next : Reads src pieces f (k ch) b rest h c d) :
    Reads src pieces f (Parse.characterAt index >>= k) b rest h c d :=
  Obtains.characterAt found next

theorem take {k : Token → ParseM β} (next : ∀ token : Token, token.Matches (piece :: pieces) →
      Reads src pieces f (k token) b rest h c d) :
    Reads src (piece :: pieces) f (Parse.take >>= k) b rest h c d := by
  intro p stands
  refine .into ((lex_stands stands).bind fun _ q met => ?_)
  obtain ⟨⟨token, rfl, isFirst⟩, stands'⟩ := met
  exact next token isFirst q stands'

theorem drop : Reads src (piece :: pieces) f drop () pieces f c :=
  fun _ stands => .into ((lex_stands stands).imp fun _ _ met => ⟨rfl, met.2⟩)

theorem expect : Reads src (.mark mark :: pieces) f (expect mark) () pieces f c := by
  refine take fun token isFirst => ?_
  rw [if_pos (show token.lexeme = .punctuator mark from isFirst.1)]
  exact pure

theorem expectKeyword (reserved : piece.lexeme = .keyword word) :
    Reads src (piece :: pieces) f (expectKeyword word) () pieces f c := by
  refine take fun token isFirst => ?_
  rw [if_pos (isFirst.1.trans reserved)]
  exact pure

theorem atMark : Reads src pieces f (atMark mark) (nextLexeme pieces = .punctuator mark) pieces f c := by
  refine lookahead fun token isFirst => ?_
  rw [isFirst.lexeme_eq]
  exact pure

theorem atKeyword : Reads src pieces f (atKeyword word)
    (nextLexeme pieces = .keyword word) pieces f c := by
  refine lookahead fun token isFirst => ?_
  rw [isFirst.lexeme_eq]
  exact pure

theorem inside : Reads src pieces f inside (nextLexeme pieces ≠ .endOfSource) pieces f c := by
  intro p stands
  obtain ⟨token, coherent, isFirst⟩ := stands.token
  have within := coherent.place_lt_size_iff
  obtain ⟨mark, start⟩ := coherent.start
  refine .into (.get_bind ?_)
  simp only [coherent.source]
  refine .into (.get_bind ?_)
  simp only [start]
  refine ⟨?_, stands⟩
  rw [isFirst.lexeme_eq] at within
  exact decide_eq_decide.mpr (by simpa [Parser.place, start] using within)

end Reads

namespace Obtains

theorem ifMark (here : nextLexeme pieces = .punctuator mark)
    (yes : Obtains src pieces f m answers rest g c d) :
    Obtains src pieces f (do if ← atMark mark then m else n) answers rest g c d := by
  refine after .atMark ?_
  rw [if_pos (decide_eq_true here)]
  exact yes

theorem unlessMark (other : nextLexeme pieces ≠ .punctuator mark)
    (no : Obtains src pieces f n answers rest g c d) :
    Obtains src pieces f (do if ← atMark mark then m else n) answers rest g c d := by
  refine after .atMark ?_
  rw [if_neg (by simp [other])]
  exact no

theorem ifInside (some : nextLexeme pieces ≠ .endOfSource)
    (yes : Obtains src pieces f m answers rest g c d) :
    Obtains src pieces f (do if ← inside then m else n) answers rest g c d := by
  refine after .inside ?_
  rw [if_pos (decide_eq_true some)]
  exact yes

end Obtains

namespace Reads

theorem ifMark (here : nextLexeme pieces = .punctuator mark) (yes : Reads src pieces f m a rest g c d) :
    Reads src pieces f (do if ← Parse.atMark mark then m else n) a rest g c d :=
  Obtains.ifMark here yes

theorem unlessMark (other : nextLexeme pieces ≠ .punctuator mark)
    (no : Reads src pieces f n a rest g c d) :
    Reads src pieces f (do if ← Parse.atMark mark then m else n) a rest g c d :=
  Obtains.unlessMark other no

theorem ifKeyword (here : nextLexeme pieces = .keyword word) (yes : Reads src pieces f m a rest g c d) :
    Reads src pieces f (do if ← Parse.atKeyword word then m else n) a rest g c d := by
  refine atKeyword.bind ?_
  rw [if_pos (decide_eq_true here)]
  exact yes

theorem unlessKeyword (other : nextLexeme pieces ≠ .keyword word)
    (no : Reads src pieces f n a rest g c d) :
    Reads src pieces f (do if ← Parse.atKeyword word then m else n) a rest g c d := by
  refine atKeyword.bind ?_
  rw [if_neg (by simp [other])]
  exact no

theorem ifInside (some : nextLexeme pieces ≠ .endOfSource) (yes : Reads src pieces f m a rest g c d) :
    Reads src pieces f (do if ← Parse.inside then m else n) a rest g c d :=
  Obtains.ifInside some yes

theorem unlessInside (no : Reads src [] f n a rest g c d) :
    Reads src [] f (do if ← Parse.inside then m else n) a rest g c d := by
  refine inside.bind ?_
  rw [if_neg (by simp [nextLexeme])]
  exact no

theorem isolated (reads : Reads src pieces true m a rest g c d) :
    Reads src pieces f (isolated m) a rest f c d := by
  intro p stands
  refine .get_bind (.modify_bind ?_)
  refine (reads p.opened stands.opened).bind fun _ q met => ?_
  obtain ⟨rfl, stands'⟩ := met
  refine .get_bind ?_
  simp only [stands'.settled]
  exact ⟨rfl, stands'.apart .rfl rfl stands.settled stands.target⟩

theorem inherited (reads : Reads src pieces true m a rest g c d) :
    Reads src pieces f (inherited m) a rest (f && g) c d := by
  intro p stands
  refine inherited_iff.mpr ((reads p.opened stands.opened).imp fun _ q met => ?_)
  obtain ⟨rfl, stands'⟩ := met
  refine ⟨rfl, stands'.apart .rfl rfl ?_ fun set => ?_⟩
  · simp [stands.settled, stands'.settled]
  · obtain ⟨before, after⟩ := Bool.and_eq_true_iff.mp set
    simp [both, stands.target before, stands'.target after]

theorem noteBinding {noted : Option Bool} :
    Reads src pieces f (modify fun p => { p with bindingElement := noted }) ⟨⟩ pieces f c :=
  change fun _ stands => stands.apart .rfl rfl stands.settled stands.target

theorem expressionOnly : Reads src pieces f expressionOnly ⟨⟩ pieces false c :=
  change fun _ stands => stands.apart .rfl rfl stands.settled nofun

theorem context {k : Context → ParseM β} (next : Reads src pieces f (k c) b rest h c d) :
    Reads src pieces f (Parse.context >>= k) b rest h c d := by
  intro p stands
  refine .into (.get_bind ?_)
  simp only [stands.context]
  exact next p stands

theorem changeContext {change : Context → Context} :
    Reads src pieces f (changeContext change) ⟨⟩ pieces f c (change c) := by
  refine context fun p stands => ⟨rfl, ?_⟩
  obtain ⟨token, coherent, isFirst⟩ := stands.token
  have coherent' : Coherent src { p with context := some (change c) } token :=
    coherent.congr rfl rfl coherent.last rfl rfl ⟨_, rfl⟩
  exact { stands with token := ⟨token, coherent', isFirst⟩, context := rfl }

theorem within {enter leave : Context → Context} (reads : Reads src pieces f m a rest g (enter c) d)
    (same : leave d = c) :
    Reads src pieces f (do Parse.changeContext enter; let a ← m; Parse.changeContext leave; Pure.pure a)
      a rest g c := by
  have leaves : Reads src rest g (Parse.changeContext leave) ⟨⟩ rest g d c := same ▸ changeContext
  exact bind changeContext (bind reads (bind leaves pure))

theorem withIn (reads : Reads src pieces f m a rest g { c with allowIn := true }) :
    Reads src pieces f (Grammar.withIn m) a rest g c :=
  .context (.within reads rfl)

theorem unlessStrict {k : Bool → ParseM β} (next : Reads src pieces f (k false) b rest h c d) :
    Reads src pieces f (isStrict >>= k) b rest h c d :=
  Obtains.unlessStrict next

theorem afterLineBreak (yes : pieces <:+ [.mark .semicolon] → Reads src pieces f m a rest g c d)
    (no : Reads src pieces f n a rest g c d) :
    Reads src pieces f (do if ← afterLineBreak then m else n) a rest g c d := by
  intro p stands
  refine .into (.get_bind (.pure ?_))
  refine Meets.ite (fun broken => ?_) fun _ => no p stands
  exact yes (stands.sameLine (of_decide_eq_true broken)) p stands

end Reads

end

/-! ### Loops -/

/-- With rounds enough the loop reads an answer of this kind from the pieces and leaves the rest. -/
def Repeats (src : Source) (body : α → ParseM (α ⊕ β)) (pieces : List Piece) (f : Bool) (a : α)
    (answers : β → Prop) (rest : List Piece) (g : Bool) (c : Context := {}) : Prop :=
  ∀ rounds, pieces.length < rounds →
    Obtains src pieces f (iterate .exhausted body rounds a) answers rest g c

/-- With rounds enough the loop reads `b` from the pieces and leaves the rest. -/
def Loops (src : Source) (body : α → ParseM (α ⊕ β)) (pieces : List Piece) (f : Bool) (a : α) (b : β)
    (rest : List Piece) (g : Bool) (c : Context := {}) : Prop :=
  Repeats src body pieces f a (· = b) rest g c

section

variable {pieces middle rest : List Piece} {f g h : Bool} {body : α → ParseM (α ⊕ β)}
variable {a next : α} {b : β} {answers : β → Prop}

namespace Repeats

/-- A round that keeps an invariant and takes a piece at least. -/
theorem again {kept : α → Prop}
    (round : Obtains src pieces f (body a) (fun s => ∃ next, s = .inl next ∧ kept next) middle h c)
    (shorter : middle.length < pieces.length)
    (more : ∀ next, kept next → Repeats src body middle h next answers rest g c) :
    Repeats src body pieces f a answers rest g c := by
  intro rounds enough
  cases rounds with
  | zero => omega
  | succ rounds =>
    refine round.bind ?_
    rintro _ ⟨next, rfl, keeps⟩
    exact more next keeps rounds (by omega)

theorem leave (round : Obtains src pieces f (body a) (fun s => ∃ b, s = .inr b ∧ answers b) rest g c) :
    Repeats src body pieces f a answers rest g c := by
  intro rounds enough
  cases rounds with
  | zero => omega
  | succ rounds =>
    refine round.bind ?_
    rintro _ ⟨b, rfl, right⟩
    exact .pure right

theorem repeated (loops : Repeats src body pieces f a answers rest g c) :
    Obtains src pieces f (repeated body a) answers rest g c := by
  intro p stands
  obtain ⟨token, coherent, -⟩ := stands.token
  refine .get_bind ?_
  have short := stands.short
  simp only [coherent.source, Option.map_some, Option.getD_some]
  exact loops _ (by omega) p stands

end Repeats

namespace Loops

theorem again (round : Reads src pieces f (body a) (.inl next) middle h c)
    (shorter : middle.length < pieces.length) (more : Loops src body middle h next b rest g c) :
    Loops src body pieces f a b rest g c := by
  intro rounds enough
  cases rounds with
  | zero => omega
  | succ rounds => exact round.bind (more rounds (by omega))

theorem leave (round : Reads src pieces f (body a) (.inr b) rest g c) :
    Loops src body pieces f a b rest g c := by
  intro rounds enough
  cases rounds with
  | zero => omega
  | succ rounds => exact round.bind .pure

theorem repeated (loops : Loops src body pieces f a b rest g c) :
    Reads src pieces f (repeated body a) b rest g c :=
  Repeats.repeated loops

end Loops

end

end EcmaScript
