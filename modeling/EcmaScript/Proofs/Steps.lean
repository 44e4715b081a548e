import EcmaScript.Proofs.Coherence

/-!
How rules move a parser forward. `Leads` says what a computation makes of a parser at a place and a
level, and `Goes` says that it comes to another place and level; both allow for an acceptable fault
only. A rule that takes a token has come one place further at least, which is what bounds the rounds
of loops and the depth of nested rules. Marks other than braces leave the level alone, and braces
come in pairs.
-/

namespace EcmaScript

variable {α β : Type}

/-- What the computation makes of any parser at this place and level. -/
def Leads (src : Source) (k : Nat) (l : Int) (m : ParseM α) (after : α → Parser → Prop) : Prop :=
  ∀ p, p.At src k l → Meets m p after (Acceptable src)

/-- The run comes to this place and level. -/
abbrev Arrives (src : Source) (m : ParseM α) (p : Parser) (k : Nat) (l : Int) : Prop :=
  Meets m p (fun _ q => q.At src k l) (Acceptable src)

/-- The computation brings a parser from one place and level to another. -/
abbrev Goes (src : Source) (k : Nat) (l : Int) (m : ParseM α) (k' : Nat) (l' : Int) : Prop :=
  Leads src k l m fun _ q => q.At src k' l'

/-- The computation keeps the level, wherever it starts. -/
class Stays (m : ParseM α) : Prop where
  goes : ∀ {src : Source} {k : Nat} {l : Int}, Goes src k l m k l

class Moves (m : ParseM α) : Prop where
  goes : ∀ {src : Source} {k : Nat} {l : Int}, Goes src k l m (k + 1) l

/-- A change of registers that have nothing to do with tokens. -/
def Parser.Apart (p q : Parser) : Prop :=
  q.source = p.source ∧ q.start = p.start ∧ q.last = p.last ∧ q.cursor = p.cursor ∧
    q.lookahead = p.lookahead ∧ q.context = p.context

/-- It also proves that a change of other registers is one, since none of these notices it. -/
theorem Parser.Apart.rfl {p : Parser} : p.Apart p :=
  ⟨Eq.refl _, Eq.refl _, Eq.refl _, Eq.refl _, Eq.refl _, Eq.refl _⟩

variable {src : Source}

theorem Parser.At.apart {k : Nat} {l : Int} {p q : Parser} (here : p.At src k l)
    (apart : p.Apart q) : q.At src k l := by
  obtain ⟨source, start, last, cursor, lookahead, context⟩ := apart
  obtain ⟨token, coherent⟩ := here.coherent
  exact here.congr source start (last ▸ coherent.last) cursor lookahead (context ▸ coherent.context)

variable {token : Token}

theorem Coherent.apart {p q : Parser} (coherent : Coherent src p token)
    (apart : p.Apart q) : Coherent src q token := by
  obtain ⟨source, start, last, cursor, lookahead, context⟩ := apart
  exact coherent.congr source start (last ▸ coherent.last) cursor lookahead (context ▸ coherent.context)

theorem Parse.isolated_at {k : Nat} {l : Int} {p : Parser} {part : ParseM α}
    (reads : Arrives src part p.opened k l) :
    Arrives src (isolated part) p k l := by
  refine isolated_meets (reads.imp fun a q there _ => ?_) fun _ _ => trivial
  exact there.apart .rfl

theorem Parse.inherited_at {k : Nat} {l : Int} {p : Parser} {part : ParseM α}
    (reads : Arrives src part p.opened k l) :
    Arrives src (inherited part) p k l :=
  inherited_iff.mpr (reads.imp fun _ _ there => there.apart .rfl)

namespace Leads

variable {src : Source} {k k' : Nat} {l l' : Int} {m : ParseM α} {f : α → ParseM β}
variable {returns : α → Parser → Prop} {after : β → Parser → Prop}

theorem bind (first : Goes src k l m k' l') (next : ∀ a, Leads src k' l' (f a) after) :
    Leads src k l (m >>= f) after :=
  fun p here => (first p here).bind fun a q there => next a q there

theorem past [stays : Stays m] (next : ∀ a, Leads src k l (f a) after) : Leads src k l (m >>= f) after :=
  .bind stays.goes next

theorem step [moves : Moves m] (next : ∀ a, Leads src (k + 1) l (f a) after) :
    Leads src k l (m >>= f) after :=
  .bind moves.goes next

theorem andThen (first : Leads src k l m returns)
    (next : ∀ a q, returns a q → Meets (f a) q after (Acceptable src)) : Leads src k l (m >>= f) after :=
  fun p here => (first p here).bind next

theorem stay {a : α} : Goes src k l (Pure.pure a : ParseM α) k l :=
  fun _ here => here

/-- The answer of a computation that has come further than needed. -/
theorem settle {j : Nat} {a : α} (less : j ≤ k) : Goes src k l (Pure.pure a : ParseM α) j l :=
  fun _ here => here.mono less

theorem ite {c : Prop} [Decidable c] {n : ParseM α} (yes : Leads src k l m returns)
    (no : Leads src k l n returns) : Leads src k l (if c then m else n) returns :=
  fun p here => .ite (fun _ => yes p here) fun _ => no p here

theorem fork {test : ParseM Bool} [Stays test] {n : ParseM α} (yes : Leads src k l m returns)
    (no : Leads src k l n returns) : Leads src k l (test >>= fun b => if b then m else n) returns :=
  .past fun _ => .ite yes no

theorem map {g : α → β} (goes : Goes src k l m k' l') : Goes src k l (g <$> m) k' l' :=
  fun p here => Meets.map_iff.mpr (goes p here)

theorem back {j : Nat} (goes : Goes src k l m k' l') (less : j ≤ k') : Goes src k l m j l' :=
  fun p here => (goes p here).imp fun _ _ there => there.mono less

theorem get : Goes src k l get k l :=
  fun _ here => here

theorem modify {change : Parser → Parser} (apart : ∀ p : Parser, p.Apart (change p)) :
    Goes src k l (modify change) k l :=
  fun p here => here.apart (apart p)

theorem isolated (goes : Goes src k l m k' l') : Goes src k l (Parse.isolated m) k' l' :=
  fun p here => Parse.isolated_at (goes p.opened (here.apart .rfl))

theorem inherited (goes : Goes src k l m k' l') : Goes src k l (Parse.inherited m) k' l' :=
  fun p here => Parse.inherited_at (goes p.opened (here.apart .rfl))

/-- The end of a round: one place further it starts over, or else the loop ends. -/
def Onward (src : Source) (j : Nat) (l : Int) (after : β → Parser → Prop) :
    α ⊕ β → Parser → Prop :=
  Sum.elim (fun _ q => q.At src (j + 1) l) after

theorem again {j : Nat} {a : α} (moved : j < k) :
    Leads src k l (Pure.pure (.inl a) : ParseM (α ⊕ β)) (Onward src j l after) :=
  fun _ here => here.mono moved

theorem leave {j i : Nat} {b : β} (less : i ≤ k) :
    Leads src k l (Pure.pure (.inr b) : ParseM (α ⊕ β)) (Onward src j l' fun _ q => q.At src i l) :=
  fun _ here => here.mono less

/-- A loop whose rounds all take a token has rounds enough. -/
theorem repeated {body : α → ParseM (α ⊕ β)}
    (round : ∀ a j, k ≤ j → Leads src j l (body a) (Onward src j l after)) (a : α) :
    Leads src k l (Parse.repeated body a) after := by
  intro p here
  refine .get_bind ?_
  obtain ⟨token, coherent⟩ := here.coherent
  simp only [coherent.source, Option.map_some, Option.getD_some]
  refine Meets.iterate (fun _ q => q.At src k l) (fun q => src.size - q.place) (fun a q there => ?_)
    _ a p here (by omega)
  refine (round a q.place there.place q there.self).imp fun answer r met => ?_
  cases answer with
  | inl next =>
    have later : q.place + 1 ≤ r.place := met.place
    have bound := met.place_le_size
    exact ⟨met.mono (Nat.le_succ_of_le there.place), by omega⟩
  | inr answer => exact met

end Leads

variable {after : β → Parser → Prop}
variable {mark : Punctuator}

namespace Parse

variable {src : Source} {k k' : Nat} {l l' : Int} {p : Parser}

/-! ### Complaints -/

section

variable {after : α → Parser → Prop}

theorem complainOf_meets (token : Option Token) (message : Option Message) :
    Meets (complainOf token message) p after (Acceptable src) := by
  refine .get_bind ?_
  cases token with
  | some token => trivial
  | none => trivial

theorem unexpected_meets (token : Token) : Meets (unexpected token) p after (Acceptable src) :=
  complainOf_meets _ _

theorem formats {message : Message} {values : List Text} {characters : List Char}
    (spelled : message.template = String.ofList characters)
    (fits : (Text.formatExactly? values (characters.map Char.toNat)).isSome) :
    (Text.formatExactly? values message.text).isSome := by
  rw [Message.text, Text.ofString, spelled, String.toList_ofList]
  exact fits

theorem complain_meets {message : Message} {values : List Text}
    (fits : (Text.formatExactly? values message.text).isSome) :
    Meets (complain message values) p after (Acceptable src) := by
  obtain ⟨words, found⟩ := Option.isSome_iff_exists.mp fits
  unfold complain
  rw [found]
  trivial

theorem unsupported_meets (feature : String) : Meets (unsupported feature) p after (Acceptable src) :=
  trivial

end

/-! ### Registers -/

section

variable (here : p.At src k l)
include here

theorem source_at : Meets source p (fun found q => q = p ∧ found = src) (Acceptable src) := by
  obtain ⟨token, coherent⟩ := here.coherent
  refine .get_bind ?_
  simp only [coherent.source]
  exact ⟨rfl, rfl⟩

theorem context_at : Meets context p (fun c q => q = p ∧ p.context = some c) (Acceptable src) := by
  obtain ⟨token, coherent⟩ := here.coherent
  obtain ⟨c, found⟩ := coherent.context
  refine .get_bind ?_
  simp only [found]
  exact ⟨rfl, rfl⟩

theorem lookahead_at :
    Meets lookahead p (fun token q => q = p ∧ Coherent src p token) (Acceptable src) := by
  obtain ⟨token, coherent⟩ := here.coherent
  refine .get_bind ?_
  simp only [coherent.lookahead]
  exact ⟨rfl, coherent⟩

theorem startMark_at :
    Meets startMark p (fun mark q => q = p ∧ p.start = some mark ∧ mark.index = p.place)
      (Acceptable src) := by
  obtain ⟨token, coherent⟩ := here.coherent
  obtain ⟨mark, start⟩ := coherent.start
  refine .get_bind ?_
  simp only [start]
  exact ⟨rfl, rfl, by simp [Parser.place, start]⟩

theorem inside_at :
    Meets inside p (fun answer q => q = p ∧ (answer = true ↔ p.place < src.size)) (Acceptable src) := by
  refine (source_at here).bind fun found q seen => ?_
  obtain ⟨rfl, rfl⟩ := seen
  refine (startMark_at here).bind fun mark q seen => ?_
  obtain ⟨rfl, -, place⟩ := seen
  exact ⟨rfl, by rw [decide_eq_true_iff, place]⟩

theorem characterAt_at {index : Nat} (room : Roomy src index) :
    Meets (characterAt index) p (fun ch q => q = p ∧ src[index]? = some ch) (Acceptable src) := by
  refine (source_at here).bind fun found q seen => ?_
  obtain ⟨rfl, rfl⟩ := seen
  cases missing : found[index]? with
  | some ch => exact ⟨rfl, rfl⟩
  | none =>
    intro length ends
    exact absurd (room length ends) (Nat.not_lt.mpr (Array.getElem?_eq_none_iff.mp missing))

end

instance source_goes : Stays source where
  goes _ here := (source_at here).imp fun _ _ seen => seen.1 ▸ here

instance context_goes : Stays context where
  goes _ here := (context_at here).imp fun _ _ seen => seen.1 ▸ here

instance changeContext_goes (change : Context → Context) : Stays (changeContext change) := by
  refine ⟨fun p here => ?_⟩
  refine (context_at here).bind fun c q seen => ?_
  obtain ⟨rfl, -⟩ := seen
  obtain ⟨token, coherent⟩ := here.coherent
  exact here.congr rfl rfl coherent.last rfl rfl ⟨_, rfl⟩

instance lookahead_goes : Stays lookahead where
  goes _ here := (lookahead_at here).imp fun _ _ seen => seen.1 ▸ here

theorem lookahead_leads {f : Token → ParseM β} (next : ∀ token p, p.At src k l → Coherent src p token →
      Meets (f token) p after (Acceptable src)) : Leads src k l (lookahead >>= f) after := by
  intro p here
  refine (lookahead_at here).bind fun token q seen => ?_
  obtain ⟨rfl, coherent⟩ := seen
  exact next token q here coherent

instance atMark_goes (mark : Punctuator) : Stays (atMark mark) :=
  ⟨.past fun _ => .stay⟩

instance atKeyword_goes (word : Keyword) : Stays (atKeyword word) :=
  ⟨.past fun _ => .stay⟩

instance isStrict_goes : Stays isStrict :=
  ⟨.bind .get fun _ => .stay⟩

instance afterLineBreak_goes : Stays afterLineBreak :=
  ⟨.bind .get fun _ => .stay⟩

instance expressionOnly_goes : Stays expressionOnly :=
  ⟨.modify fun _ => .rfl⟩

theorem inside_ite {yes no : ParseM α} {after : α → Parser → Prop}
    (within : ∀ p, p.At src k l → p.place < src.size → Meets yes p after (Acceptable src))
    (ended : ∀ p, p.At src k l → p.place = src.size → Meets no p after (Acceptable src)) :
    Leads src k l (do if ← inside then yes else no) after := by
  intro p here
  refine (inside_at here).bind fun answer q seen => ?_
  obtain ⟨rfl, isInside⟩ := seen
  refine .ite (fun isTrue => within q here (isInside.mp isTrue)) fun isFalse => ended q here ?_
  exact Nat.le_antisymm here.place_le_size (Nat.le_of_not_lt fun less => isFalse (isInside.mpr less))

/-! ### Tokens -/

/-- `q` has taken `token`, the lookahead of `p`. -/
structure Taken (src : Source) (p : Parser) (token : Token) (q : Parser) : Prop where
  coherent : ∃ next, Coherent src q next
  place : p.place ≤ q.place
  moved : token.lexeme ≠ .endOfSource → p.place < q.place
  level : q.level = p.level + token.lexeme.weight
  last : ∃ mark, q.last = some mark ∧ mark.index = token.stop
  inside : ∀ length, Sealed src length → token.stop ≤ length → q.place < src.size
  solid : Layout.Solid src (token.stop = 0) token.stop → q.place = token.stop

namespace Taken

variable {q : Parser} {token : Token}

theorem here (taken : Taken src p token q) (here : p.At src k l)
    (weightless : token.lexeme.weight = 0) : q.At src k l :=
  ⟨taken.coherent, Nat.le_trans here.place taken.place,
    by rw [taken.level, weightless, Int.add_zero, here.level]⟩

theorem past (taken : Taken src p token q) (here : p.At src k l)
    (notEnd : token.lexeme ≠ .endOfSource) (level : l + token.lexeme.weight = l') : q.At src (k + 1) l' :=
  ⟨taken.coherent, Nat.lt_of_le_of_lt here.place (taken.moved notEnd),
    by rw [taken.level, here.level, level]⟩

end Taken

theorem lex_at (coherent : Coherent src p token) :
    Meets lex p (fun given q => given = some token ∧ Taken src p token q) (Acceptable src) := by
  refine (lex_meets coherent.toPoised).imp fun given q met => ?_
  obtain ⟨rfl, lexed, last⟩ := met
  obtain ⟨braces, opened⟩ := coherent.braces
  exact ⟨coherent.lookahead,
    { coherent := lexed.coherent
      place := Nat.le_trans coherent.place_le lexed.place
      moved := fun notEnd => Nat.lt_of_lt_of_le (coherent.place_lt notEnd) lexed.place
      level := by rw [lexed.level, coherent.level_eq opened, opened]; rfl
      last := ⟨_, last, coherent.stop_eq.symm⟩
      inside := coherent.stop_eq ▸ lexed.inside
      solid := coherent.stop_eq ▸ lexed.solid }⟩

theorem take_at (coherent : Coherent src p token) :
    Meets take p (fun given q => given = token ∧ Taken src p token q) (Acceptable src) := by
  refine (lex_at coherent).bind fun given q met => ?_
  obtain ⟨rfl, taken⟩ := met
  exact ⟨rfl, taken⟩

theorem drop_at (coherent : Coherent src p token) :
    Meets drop p (fun _ q => Taken src p token q) (Acceptable src) :=
  (lex_at coherent).bind fun _ _ met => met.2

/-- Taking any token, whatever comes of the level. -/
theorem take_leads {f : Token → ParseM β}
    (next : ∀ token p q, p.At src k l → Coherent src p token → Taken src p token q →
      Meets (f token) q after (Acceptable src)) : Leads src k l (take >>= f) after := by
  intro p here
  obtain ⟨token, coherent⟩ := here.coherent
  refine (take_at coherent).bind fun given q met => ?_
  obtain ⟨rfl, taken⟩ := met
  exact next given p q here coherent taken

def Light (lexeme : Lexeme) : Prop :=
  lexeme ≠ .endOfSource ∧ lexeme.weight = 0

theorem Taken.light {q : Parser} (taken : Taken src p token q)
    (here : p.At src k l) (light : Light token.lexeme) : q.At src (k + 1) l :=
  taken.past here light.1 (by rw [light.2, Int.add_zero])

theorem drop_light (here : p.At src k l) (coherent : Coherent src p token)
    (light : Light token.lexeme) : Arrives src drop p (k + 1) l :=
  (drop_at coherent).imp fun _ _ taken => taken.light here light

def Sees (src : Source) (lexeme : Lexeme) (p : Parser) : Prop :=
  ∃ token, Coherent src p token ∧ token.lexeme = lexeme

theorem drop_seen {lexeme : Lexeme} (here : p.At src k l) (seen : Sees src lexeme p)
    (light : Light lexeme) : Arrives src drop p (k + 1) l := by
  obtain ⟨token, coherent, rfl⟩ := seen
  exact drop_light here coherent light

section

variable {yes no : ParseM α} {after : α → Parser → Prop}

theorem atMark_ite
    (seen : ∀ token p, p.At src k l → Coherent src p token → token.lexeme = .punctuator mark →
      Meets yes p after (Acceptable src)) (other : Leads src k l no after) :
    Leads src k l (do if ← atMark mark then yes else no) after := by
  intro p here
  refine .into (lookahead_leads (fun token p here coherent => ?_) p here)
  exact .ite (fun same => seen token p here coherent (of_decide_eq_true same)) fun _ => other p here

theorem atKeyword_ite {word : Keyword}
    (seen : ∀ token p, p.At src k l → Coherent src p token → token.lexeme = .keyword word →
      Meets yes p after (Acceptable src)) (other : Leads src k l no after) :
    Leads src k l (do if ← atKeyword word then yes else no) after := by
  intro p here
  refine .into (lookahead_leads (fun token p here coherent => ?_) p here)
  exact .ite (fun same => seen token p here coherent (of_decide_eq_true same)) fun _ => other p here

/-- A mark that is taken if it comes next. -/
theorem ifMark (light : Light (.punctuator mark))
    (taken : Leads src (k + 1) l yes after) (other : Leads src k l no after) :
    Leads src k l (do if ← atMark mark then do { drop; yes } else no) after := by
  refine atMark_ite (fun token p here coherent same => ?_) other
  exact (drop_light here coherent (same ▸ light)).bind fun _ q there => taken q there

theorem ifKeyword {word : Keyword} (taken : Leads src (k + 1) l yes after)
    (other : Leads src k l no after) :
    Leads src k l (do if ← atKeyword word then do { drop; yes } else no) after := by
  refine atKeyword_ite (fun token p here coherent same => ?_) other
  exact (drop_light here coherent (same ▸ ⟨nofun, rfl⟩)).bind fun _ q there => taken q there

end

theorem atMark_at (mark : Punctuator) (here : p.At src k l) :
    Meets (atMark mark) p (fun _ q => q = p) (Acceptable src) :=
  (lookahead_at here).bind fun _ _ seen => seen.1

theorem atKeyword_at (word : Keyword) (here : p.At src k l) :
    Meets (atKeyword word) p (fun answer q => q = p ∧ (answer = true → Sees src (.keyword word) p))
      (Acceptable src) := by
  refine (lookahead_at here).bind fun token q seen => ?_
  obtain ⟨rfl, coherent⟩ := seen
  exact ⟨rfl, fun same => ⟨token, coherent, of_decide_eq_true same⟩⟩

theorem expect_goes (level : l + (Lexeme.punctuator mark).weight = l') :
    Goes src k l (expect mark) (k + 1) l' := by
  refine take_leads fun token p q here _ taken => .ite (fun same => ?_) fun _ => ?_
  · exact taken.past here (by rw [same]; nofun) (by rw [same, level])
  · exact unexpected_meets token

theorem expect_openParen (here : p.At src k l) :
    Meets (expect .openParen) p (fun _ q => q.At src (k + 1) l ∧ Roomy src q.place) (Acceptable src) := by
  refine take_leads (fun token p q here coherent taken => ?_) p here
  refine .ite (fun same => ?_) fun _ => unexpected_meets token
  refine ⟨taken.light here (same ▸ ⟨nofun, rfl⟩), fun length ends => ?_⟩
  obtain ⟨found, stop⟩ : src[token.start]? = some 0x28 ∧ token.stop = token.start + 1 :=
    coherent.mark _ same
  have inCode := ends.inCode found (by decide)
  exact taken.inside length ends (by omega)

theorem expect_openBrace : Goes src k l (expect .openBrace) (k + 1) (l + 1) :=
  expect_goes rfl

theorem expect_closeBrace : Goes src k (l + 1) (expect .closeBrace) (k + 1) l :=
  expect_goes (Int.add_neg_cancel_right l 1)

/-- The token before the lookahead was a keyword. Its end is known, and a sealed source goes on for
two characters there. A semicolon right behind it is the lookahead. -/
structure BehindKeyword (src : Source) (q : Parser) (mark : Mark) : Prop where
  last : q.last = some mark
  room : Roomy src mark.index
  room' : Roomy src (mark.index + 1)
  place : Roomy src q.place
  semicolon : src[mark.index]? = some 0x3B → q.place = mark.index

theorem expectKeyword_at (word : Keyword) (here : p.At src k l) : Meets (expectKeyword word) p
      (fun _ q => q.At src (k + 1) l ∧ ∃ mark, BehindKeyword src q mark) (Acceptable src) := by
  refine take_leads (fun token p q here coherent taken => ?_) p here
  refine .ite (fun same => ?_) fun _ => unexpected_meets token
  have inCode := coherent.keyword word same
  obtain ⟨mark, last, stop⟩ := taken.last
  have room (i : Nat) (small : i < 10) : Roomy src (mark.index + i) := by
    intro length ends
    have bound := inCode length ends
    have size := ends.size_eq
    omega
  refine ⟨taken.light here (same ▸ ⟨nofun, rfl⟩), mark, last, room 0 (by decide),
    room 1 (by decide), fun length ends => taken.inside length ends (inCode length ends), ?_⟩
  intro found
  rw [stop] at found ⊢
  exact taken.solid (.of_semicolon found)

instance expectKeyword_goes (word : Keyword) : Moves (expectKeyword word) where
  goes _ here := (expectKeyword_at word here).imp fun _ _ met => met.1

/-- A semicolon is no brace, whatever token starts with it. -/
theorem drop_semicolon (here : p.At src k l) (found : src[p.place]? = some 0x3B) :
    Arrives src drop p k l := by
  obtain ⟨token, coherent⟩ := here.coherent
  rw [coherent.place_eq] at found
  exact (drop_at coherent).imp fun _ _ taken => taken.here here (coherent.semicolon found)

instance consumeSemicolon_goes : Stays consumeSemicolon := by
  refine ⟨fun {src k l} p here => ?_⟩
  refine (source_at here).bind fun found q seen => ?_
  obtain ⟨rfl, rfl⟩ := seen
  refine (startMark_at here).bind fun mark q seen => ?_
  obtain ⟨rfl, start, place⟩ := seen
  refine .ite (fun isSemicolon => drop_semicolon here (place ▸ isSemicolon)) fun _ => ?_
  refine atMark_ite (fun token p here coherent same => ?_) ?_ q here
  · exact (drop_at coherent).imp fun _ _ taken => taken.here here (same ▸ rfl)
  refine .past fun _ => .ite .stay ?_
  intro p here
  obtain ⟨token, coherent⟩ := here.coherent
  have moved : { p with last := p.start : Parser }.At found k l :=
    here.congr rfl rfl coherent.start rfl rfl coherent.context
  refine .modify_bind ?_
  refine Leads.past (fun token => ?_) _ moved
  exact .ite .stay fun _ _ => unexpected_meets token

end Parse

theorem Leads.expect {k : Nat} {l : Int} {f : Unit → ParseM β} (weightless : (Lexeme.punctuator mark).weight = 0)
    (next : ∀ a, Leads src (k + 1) l (f a) after) : Leads src k l (Parse.expect mark >>= f) after :=
  .bind (Parse.expect_goes (by rw [weightless, Int.add_zero])) next

end EcmaScript
